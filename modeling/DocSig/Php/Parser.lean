import DocSig.Php.Grammar.Statements
import DocSig.Php.Lexer

/-!
Reading a whole PHP source.
-/

set_option autoImplicit false

namespace DocSig.Php

/-- The readers of constructs that nest at most `depth` deep in lists of at most `limit`
items. -/
def readers (limit : Nat) : Nat → Readers
  | 0 => ⟨fun _ => failure, failure, limit⟩
  | depth + 1 =>
    let inner := readers limit depth
    ⟨inner.expression, inner.anyStatement, limit⟩

/-- All statements of a source. A construct nests at most two deep for each token that it begins
with. -/
def parseTokens (tokens : List Token) : Option (List Statement) :=
  let limit := tokens.length + 1
  let statement := (readers limit (2 * limit)).statement
  (Parse.many (do return (← Parse.peek).isSome) statement limit tokens).map Prod.fst

/-- The parser of this library. It says of a source at most that it cannot be read. -/
def parser : Parser := fun source =>
  match Lexemes.ofSource source with
  | none => some ⟨[], [], ["unexpected character or end".toList]⟩
  | some lexemes =>
    match parseTokens lexemes.tokens with
    | none => some ⟨[], lexemes.trivia, ["unexpected token".toList]⟩
    | some statements => some ⟨statements, lexemes.trivia, []⟩

end DocSig.Php
