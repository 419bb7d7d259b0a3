import DocSig.Php.Grammar.Statements
import DocSig.Proofs.Php.Grammar.Expressions

/-!
The readers for statements keep names bare.
-/

set_option autoImplicit false
set_option mvcgen.warning false

open Std.Do

namespace DocSig.Php

namespace Readers

open Parse

@[spec] theorem keeps_beforeCases : Php.Keeps beforeCases := by
  mvcgen [beforeCases] with grind

@[spec] theorem keeps_useItem : Php.Keeps useItem := by
  mvcgen [useItem] with grind

@[spec] theorem keeps_useKind : Php.Keeps useKind := by
  mvcgen [useKind] with grind

@[spec] theorem keeps_groupItem : Php.Keeps groupItem := by
  mvcgen [groupItem] with grind

@[spec] theorem keeps_ahead (places : Nat) : Php.Keeps (ahead places) := by
  mvcgen [ahead]
  next tokens given => exact ⟨given, fun token found => given token (List.mem_of_getElem? found)⟩

@[spec] theorem keeps_atFunction : Php.Keeps atFunction := by
  mvcgen [atFunction] with grind

@[spec] theorem keeps_atClass : Php.Keeps atClass := by
  mvcgen [atClass] with grind

@[spec] theorem keeps_atEnum : Php.Keeps atEnum := by
  mvcgen [atEnum]

@[spec] theorem keeps_label : Php.Keeps label? := by
  mvcgen [label?] with grind

theorem spaceName_cons (token : Token) (tokens : List Token) :
    spaceName (token :: tokens) =
      if token.kind = .name ∨ token.kind = .word then some (some token.text, tokens)
      else some (none, token :: tokens) := by
  obtain ⟨kind, text, start⟩ := token
  cases kind <;> rfl

-- The triples of `peek` and `next` do not say that the token taken is the one looked at.
@[spec] theorem keeps_spaceName : Php.Keeps spaceName := by
  refine keeps_iff.mpr fun tokens name rest given read => ?_
  cases tokens with
  | nil => cases read; exact ⟨given, bare_none⟩
  | cons token tokens =>
      obtain ⟨first, others⟩ := bare_more.mp given
      rw [spaceName_cons] at read
      split at read
      case isTrue kind => cases read; exact ⟨others, bare_some.mpr (bare_text first kind.symm)⟩
      case isFalse => cases read; exact ⟨given, bare_none⟩

variable {r : Readers}

@[spec] theorem keeps_typedItems (kind : UseKind) : Php.Keeps (r.typedItems kind) := by
  mvcgen [typedItems] with grind

@[spec] theorem keeps_plainItems : Php.Keeps r.plainItems := by
  mvcgen [plainItems] with grind

@[spec] theorem keeps_uses (start : Nat) : Php.Keeps (r.uses start) := by
  mvcgen [uses] with grind

variable (k : r.Keeps)

include k

@[spec] theorem keeps_condition : Php.Keeps r.condition := by
  mvcgen [condition] with grind

@[spec] theorem keeps_statementsUntil (words : List String) :
    Php.Keeps (r.statementsUntil words) := by
  mvcgen [statementsUntil] with grind

@[spec] theorem keeps_loopBody (closing : String) : Php.Keeps (r.loopBody closing) := by
  mvcgen [loopBody] with grind

@[spec] theorem keeps_elseClauses (limit : Nat) : Php.Keeps (r.elseClauses limit) := by
  induction limit with
  | zero => exact keeps_failure
  | succ limit ih => mvcgen [elseClauses, ih] with grind

@[spec] theorem keeps_elseBlocks (limit : Nat) : Php.Keeps (r.elseBlocks limit) := by
  induction limit with
  | zero => exact keeps_failure
  | succ limit ih => mvcgen [elseBlocks, ih] with grind

@[spec] theorem keeps_branches (start : Nat) : Php.Keeps (r.branches start) := by
  mvcgen [branches] with grind

@[spec] theorem keeps_case : Php.Keeps r.case_ := by
  mvcgen [case_] with grind

@[spec] theorem keeps_switch (start : Nat) : Php.Keeps (r.switch start) := by
  mvcgen [switch] with grind

@[spec] theorem keeps_handler : Php.Keeps r.handler := by
  mvcgen [handler] with grind

@[spec] theorem keeps_guarded (start : Nat) : Php.Keeps (r.guarded start) := by
  mvcgen [guarded] with grind

@[spec] theorem keeps_forEach (start : Nat) : Php.Keeps (r.forEach start) := by
  mvcgen [forEach] with grind

@[spec] theorem keeps_forLoop (start : Nat) : Php.Keeps (r.forLoop start) := by
  mvcgen [forLoop] with grind

@[spec] theorem keeps_doLoop (start : Nat) : Php.Keeps (r.doLoop start) := by
  mvcgen [doLoop] with grind

@[spec] theorem keeps_directive (start : Nat) : Php.Keeps (r.directive start) := by
  mvcgen [directive] with grind

@[spec] theorem keeps_space (start : Nat) : Php.Keeps (r.space start) := by
  mvcgen [space] with grind

@[spec] theorem keeps_function (start : Nat) : Php.Keeps (r.function start) := by
  mvcgen [function] with grind

@[spec] theorem keeps_declaredConstants : Php.Keeps r.declaredConstants := by
  mvcgen [declaredConstants] with grind

@[spec] theorem keeps_declaration (start : Nat) : Php.Keeps (r.declaration? start) := by
  mvcgen [declaration?] with grind

@[spec] theorem keeps_expressionStatement : Php.Keeps r.expressionStatement := by
  mvcgen [expressionStatement] with grind

@[spec] theorem keeps_attributed (start : Nat) : Php.Keeps (r.attributed start) := by
  mvcgen [attributed] with grind

@[spec] theorem keeps_listed : Php.Keeps r.listed := by
  mvcgen [listed] with grind

@[spec] theorem keeps_optionalValue : Php.Keeps r.optionalValue := by
  mvcgen [optionalValue] with grind

@[spec] theorem keeps_globalName : Php.Keeps r.globalName := by
  mvcgen [globalName] with grind

@[spec] theorem keeps_wordStatement (token : Token) : Php.Keeps (r.wordStatement? token) := by
  unfold wordStatement?
  -- one goal for each group of words, so that no branch carries the conditions of the others
  dsimp only
  repeat' with_reducible apply keeps_ite
  all_goals mvcgen with grind

@[spec] theorem keeps_staticVariables : Php.Keeps r.staticVariables? := by
  mvcgen [staticVariables?] with grind

@[spec] theorem keeps_startingWithWord (token : Token) : Php.Keeps (r.startingWithWord token) := by
  mvcgen [startingWithWord] with grind

@[spec] theorem keeps_anyStatement : Php.Keeps r.anyStatement := by
  mvcgen [anyStatement] with grind

end Readers

end DocSig.Php
