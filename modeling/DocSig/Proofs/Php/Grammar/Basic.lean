import DocSig.Php.Grammar.Basic
import DocSig.Proofs.Php.Syntax
import Mathlib

/-!
The readers of tokens keep names bare: from tokens whose names are, a reader gives something
whose names are, and leaves such tokens (`Keeps`). Each reader has one such lemma, which stands
for it in the proofs for the readers that use it. A proof follows the steps of its reader; what
is left is that a construct has bare names because its parts have them.
-/

set_option autoImplicit false
set_option mvcgen.warning false

open Std.Do

namespace DocSig.Php

/-- From tokens with bare names a reader gives, if anything, what has bare names, and leaves
tokens with bare names. -/
abbrev Keeps {α : Type} [HasNames α] (reader : Parse α) : Prop :=
  ⦃fun tokens => ⌜bare tokens⌝⦄ reader ⦃⇓? x tokens => ⌜bare tokens ∧ bare x⌝⦄

section

variable {α : Type} [HasNames α]

theorem keeps_iff {reader : Parse α} : Keeps reader ↔
    ∀ tokens x rest, bare tokens → reader tokens = some (x, rest) → bare rest ∧ bare x := by
  constructor
  · intro keeps tokens x rest given read
    have held := keeps tokens given
    change (wp⟦StateT.run reader tokens⟧
      (fun found => ⌜bare found.2 ∧ bare found.1⌝, ExceptConds.true)).down at held
    rw [show StateT.run reader tokens = some (x, rest) from read] at held
    exact held
  · intro holds tokens given
    change (wp⟦StateT.run reader tokens⟧
      (fun found => ⌜bare found.2 ∧ bare found.1⌝, ExceptConds.true)).down
    cases run : StateT.run reader tokens with
    | none => exact trivial
    | some found => exact holds tokens found.1 found.2 given run

namespace Parse

omit [HasNames α] in
@[spec] theorem failure_gives_nothing :
    ⦃fun _ => ⌜True⌝⦄ (failure : Parse α) ⦃⇓? _ _ => ⌜False⌝⦄ :=
  fun _ _ => trivial

theorem keeps_failure : Keeps (failure : Parse α) := fun _ _ => trivial

theorem keeps_ite {test : Prop} [Decidable test] {reader other : Parse α} (keeps : Keeps reader)
    (keepsOther : Keeps other) : Keeps (if test then reader else other) := by
  split
  · exact keeps
  · exact keepsOther

@[spec] theorem keeps_next : Keeps next := by
  refine keeps_iff.mpr fun tokens x rest given read => ?_
  cases tokens with
  | nil => cases read
  | cons token tokens =>
      cases read
      obtain ⟨first, others⟩ := bare_more.mp given
      exact ⟨others, first⟩

@[spec] theorem keeps_peek : Keeps peek := by
  mvcgen [peek]
  next tokens given =>
    exact ⟨given, fun token found => given token (List.mem_of_mem_head? found)⟩

@[spec] theorem keeps_peekSecond : Keeps peekSecond := by
  mvcgen [peekSecond]
  next tokens given =>
    exact ⟨given, fun token found =>
      given token (List.mem_of_mem_tail (List.mem_of_mem_head? found))⟩

@[spec] theorem keeps_atSymbol (symbol : String) : Keeps (atSymbol symbol) := by
  mvcgen [atSymbol] with grind

@[spec] theorem keeps_atWord (words : List String) : Keeps (atWord words) := by
  mvcgen [atWord] with grind

@[spec] theorem keeps_atKind (kind : TokenKind) : Keeps (atKind kind) := by
  mvcgen [atKind] with grind

@[spec] theorem keeps_trySymbol (symbol : String) : Keeps (trySymbol symbol) := by
  mvcgen [trySymbol] with grind

@[spec] theorem keeps_tryWord (word : String) : Keeps (tryWord word) := by
  mvcgen [tryWord] with grind

@[spec] theorem keeps_symbol (symbol : String) : Keeps (Parse.symbol symbol) := by
  mvcgen [Parse.symbol] with grind

@[spec] theorem keeps_word (word : String) : Keeps (Parse.word word) := by
  mvcgen [Parse.word] with grind

@[spec] theorem keeps_ofKind (kind : TokenKind) :
    ⦃fun tokens => ⌜bare tokens⌝⦄ ofKind kind
    ⦃⇓? token tokens => ⌜bare tokens ∧ bare token ∧ token.kind = kind⌝⦄ := by
  mvcgen [ofKind] with grind

@[spec] theorem keeps_offset : Keeps offset := by
  mvcgen [offset] with grind

section

variable {more given : Parse Bool} {item : Parse α}

@[spec] theorem keeps_many (keepsMore : Keeps more) (keeps : Keeps item) (limit : Nat) :
    Keeps (many more item limit) := by
  induction limit with
  | zero => exact keeps_failure
  | succ limit ih => mvcgen [many, keepsMore, keeps, ih] with grind

@[spec] theorem keeps_manyUntil (close : String) (keeps : Keeps item) (limit : Nat) :
    Keeps (manyUntil close item limit) := by
  mvcgen [manyUntil] with grind

@[spec] theorem keeps_commas (keeps : Keeps item) (limit : Nat) : Keeps (commas item limit) := by
  mvcgen [commas, keeps] with grind

@[spec] theorem keeps_commasUntil (close : String) (keeps : Keeps item) (limit : Nat) :
    Keeps (commasUntil close item limit) := by
  induction limit with
  | zero => exact keeps_failure
  | succ limit ih => mvcgen [commasUntil, keeps, ih] with grind

@[spec] theorem keeps_optional (keepsGiven : Keeps given) (keeps : Keeps item) :
    Keeps (Parse.optional given item) := by
  mvcgen [Parse.optional, keepsGiven, keeps] with grind

end

@[spec] theorem keeps_terminator : Keeps terminator := by
  mvcgen [terminator] with grind

end Parse

end

theorem Token.kind_of_isWord {token : Token} {word : String} (found : token.isWord word = true) :
    token.kind = .word := by
  obtain ⟨same, _⟩ := Bool.and_eq_true_iff.mp found
  cases kind : token.kind with
  | word => rfl
  | _ => rw [kind] at same; exact absurd same (by decide)

theorem Token.kind_of_isOneOf {token : Token} {words : List String}
    (found : token.isOneOf words = true) : token.kind = .word := by
  obtain ⟨word, _, same⟩ := List.any_eq_true.mp found
  exact kind_of_isWord same

theorem Token.kind_of_isPlainWord {token : Token} (found : token.isPlainWord = true) :
    token.kind = .word := by
  obtain ⟨same, _⟩ := Bool.and_eq_true_iff.mp found
  cases kind : token.kind with
  | word => rfl
  | _ => rw [kind] at same; exact absurd same (by decide)

/-- The text of a word or a name. -/
@[grind .] theorem bare_text {token : Token} (given : bare token)
    (kind : token.kind = .word ∨ token.kind = .name) : bare token.text := by
  rcases kind with kind | kind
  · exact given (Or.inl (by rw [kind]))
  · exact given (Or.inr (by rw [kind]))

@[spec] theorem Parse.keeps_plainWord :
    ⦃fun tokens => ⌜bare tokens⌝⦄ plainWord
    ⦃⇓? token tokens => ⌜bare tokens ∧ bare token ∧ token.kind = .word⌝⦄ := by
  mvcgen [plainWord] with grind [Token.kind_of_isPlainWord]

@[grind .] theorem bare_word {token : Token} (given : bare token)
    (kind : token.kind = .name ∨ token.isPlainWord = true) :
    bare (Word.mk token.text token.start) :=
  bare_text given (kind.symm.imp_left Token.kind_of_isPlainWord)

@[grind .] theorem bare_wordText {word : Word} (given : bare word) : bare word.text := given

@[spec] theorem Parse.keeps_className : Keeps className := by
  mvcgen [className] with grind

section

variable {left right : Hint} {word : Word}

@[grind .] theorem bare_builtin : bare Hint.builtin := bare_empty

@[grind ←] theorem bare_named (named : bare word) : bare (Hint.named word) :=
  bare_more.mpr ⟨named, bare_empty⟩

@[grind ←] theorem bare_relative (named : bare word) : bare (Hint.relative word) :=
  bare_more.mpr ⟨named, bare_empty⟩

@[grind ←] theorem bare_nullable (inner : bare left) : bare (Hint.nullable left) := inner

@[grind ←] theorem bare_grouped (inner : bare left) : bare (Hint.grouped left) := inner

@[grind ←] theorem bare_union (first : bare left) (second : bare right) :
    bare (Hint.union left right) :=
  bare_joined.mpr ⟨first, second⟩

@[grind ←] theorem bare_intersection (first : bare left) (second : bare right) :
    bare (Hint.intersection left right) :=
  bare_joined.mpr ⟨first, second⟩

end

@[grind →] theorem Token.plain_of_isOneOf {token : Token} {words : List String} (given : bare token)
    (found : token.isOneOf words = true) : bare (Word.mk token.text token.start) :=
  bare_text given (Or.inl (kind_of_isOneOf found))

@[spec] theorem keeps_simpleHint {inner : Parse Hint} (keeps : Keeps inner) :
    Keeps (simpleHint inner) := by
  mvcgen [simpleHint, keeps] with grind

@[spec] theorem keeps_atConjunction : Keeps atConjunction := by
  mvcgen [atConjunction]

@[spec] theorem keeps_readHint (limit : Nat) : Keeps (readHint limit) := by
  induction limit with
  | zero => exact Parse.keeps_failure
  | succ limit ih => mvcgen [readHint, ih] with grind

end DocSig.Php
