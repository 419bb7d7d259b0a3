import DocSig.Php.Parser
import DocSig.Proofs.Php.Grammar.Statements

/-!
No line end and no quote stands in a name of the syntax that the parser of this library gives: the
readers keep the names of the tokens, and those are bare.
-/

set_option autoImplicit false
set_option mvcgen.warning false

open Std.Do

namespace DocSig.Php

/-- The readers keep names bare at every depth. -/
theorem keeps_readers (limit depth : Nat) : (readers limit depth).Keeps := by
  induction depth with
  | zero => exact ⟨fun _ => Parse.keeps_failure, Parse.keeps_failure⟩
  | succ depth ih => exact ⟨Readers.keeps_expression ih, Readers.keeps_anyStatement ih⟩

theorem bare_parseTokens {tokens : List Token} {statements : List Statement} (given : bare tokens)
    (parsed : parseTokens tokens = some statements) : bare statements := by
  obtain ⟨⟨found, rest⟩, read, rfl⟩ := Option.map_eq_some_iff.mp parsed
  let limit := tokens.length + 1
  have item := (keeps_readers limit (2 * limit)).statement
  have more : Keeps (do return (← Parse.peek).isSome) := by
    mvcgen with grind
  exact (keeps_iff.mp (Parse.keeps_many more item limit) tokens found rest given read).2

/-- The names in what the parser of this library gives are bare. -/
theorem parser_bare {source : Text} {program : Program}
    (given : Php.parser source = some program) : program.Bare := by
  unfold Php.parser at given
  split at given
  · cases given
    exact allBare_nil
  · next lexemes cut =>
      split at given
      · cases given
        exact allBare_nil
      · next statements parsed =>
          cases given
          exact bare_statementNames.mp (bare_parseTokens (Lexemes.bare_ofSource cut) parsed)

end DocSig.Php
