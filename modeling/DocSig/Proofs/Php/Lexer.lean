import DocSig.Php.Lexer
import DocSig.Proofs.Text.Scan

/-!
What the lexer takes for names: no line end and no quote stands in a token that is a word or a
name. Every piece is looked at where it is cut; `cutWord` alone gives such tokens.
-/

set_option autoImplicit false

namespace DocSig.Php

theorem isBare_of_isWordChar {c : Char} (word : isWordChar c = true) : isBare c = true :=
  isBare_of_class word (by decide)

theorem isBare_of_isWordStart {c : Char} (start : isWordStart c = true) : isBare c = true :=
  isBare_of_class start (by decide)

/-- The kinds of tokens that can name something. -/
def PieceKind.isNaming (kind : PieceKind) : Prop := kind = .token .word ∨ kind = .token .name

/-- A token that can name something has neither line ends nor quotes in it. -/
def Token.Bare (token : Token) : Prop :=
  (PieceKind.token token.kind).isNaming → DocSig.Bare token.text

/-- As for tokens, of a piece that is cut off. -/
def Cut.Bare (cut : Cut) : Prop := cut.kind.isNaming → DocSig.Bare cut.text

namespace Lexer

theorem bare_nameRest (s : Text) : Bare (nameRest s).1 := by
  fun_induction nameRest s with
  | case1 c s start more rest given ih =>
      rw [given] at ih
      exact bare_cons.mpr ⟨by decide, bare_cons.mpr ⟨isBare_of_isWordStart start, ih⟩⟩
  | case2 => exact bare_nil
  | case3 c s _ word more rest given ih =>
      rw [given] at ih
      exact bare_cons.mpr ⟨isBare_of_isWordChar word, ih⟩
  | case4 => exact bare_nil
  | case5 => exact bare_nil

section

variable {s : Text} {mode : Mode} {below : List Mode} {found : Cut}

theorem bare_cutWord {c : Char} (start : isBare c = true) (s : Text) (mode : Mode)
    (below : List Mode) : (cutWord (c :: s) mode below).Bare := by
  intro _
  have bare : Bare (c :: (nameRest s).1) := bare_cons.mpr ⟨start, bare_nameRest s⟩
  rw [cutWord]
  dsimp only
  split <;> exact bare

theorem bare_cutHtml (s : Text) (below : List Mode) : (cutHtml s below).Bare := by
  unfold cutHtml openTag?
  grind [Cut.Bare, PieceKind.isNaming]

theorem bare_cutTemplate {closing : Closing} (given : cutTemplate closing s below = some found) :
    found.Bare := by
  unfold cutTemplate at given
  grind [Cut.Bare, PieceKind.isNaming]

theorem bare_cutSymbol (given : cutSymbol s mode below = some found) : found.Bare := by
  unfold cutSymbol at given
  grind [Cut.Bare, PieceKind.isNaming, Option.map_eq_some_iff]

theorem bare_cutQuoted {quote : Char} {mark : Text}
    (given : cutQuoted quote mark s below = some found) : found.Bare := by
  unfold cutQuoted at given
  grind [Cut.Bare, PieceKind.isNaming]

theorem bare_cutCode (given : cutCode s mode below = some found) : found.Bare := by
  have backslash : isBare '\\' = true := by decide
  -- a word is cut in two of the branches, behind a backslash or a letter; no other piece is a name
  unfold cutCode at given
  grind [Cut.Bare, PieceKind.isNaming, Option.map_eq_some_iff, bare_cutSymbol, bare_cutQuoted,
    bare_cutWord, isBare_of_isWordStart]

theorem bare_cut {modes : List Mode} (given : cut modes s = some found) : found.Bare := by
  unfold cut at given
  split at given
  · cases given
  · cases given
    exact bare_cutHtml _ _
  · exact bare_cutTemplate given
  · cases given
    rintro (same | same) <;> cases same
  · exact bare_cutCode given

end

theorem pieces_nil {allowance : Nat} {modes : List Mode} {start : Nat}
    {found : List (PieceKind × Text × Nat)} (given : pieces allowance modes start [] = some found) :
    found = [] := by
  rw [pieces] at given
  split at given <;> cases given
  rfl

/-- What holds of whatever is cut off holds of every piece. -/
theorem forall_pieces (holds : PieceKind → Text → Prop)
    (each : ∀ {modes s found}, cut modes s = some found → holds found.kind found.text)
    {allowance : Nat} {modes : List Mode} {start : Nat} {s : Text}
    {found : List (PieceKind × Text × Nat)}
    (given : pieces allowance modes start s = some found) :
    ∀ piece ∈ found, holds piece.1 piece.2.1 := by
  induction allowance generalizing modes start s found with
  | zero =>
      cases s with
      | nil => simp [pieces_nil given]
      | cons c s => cases given
  | succ allowance ih =>
      cases s with
      | nil => simp [pieces_nil given]
      | cons c s =>
          rw [pieces.eq_def] at given
          dsimp only at given
          split at given
          · cases given
          · next kind text rest after cutOff =>
              obtain ⟨more, later, rfl⟩ := Option.map_eq_some_iff.mp given
              exact List.forall_mem_cons.mpr ⟨each cutOff, ih later⟩

theorem bare_pieces {allowance : Nat} {modes : List Mode} {start : Nat} {s : Text}
    {found : List (PieceKind × Text × Nat)}
    (given : pieces allowance modes start s = some found) :
    ∀ piece ∈ found, piece.1.isNaming → Bare piece.2.1 :=
  forall_pieces (fun kind text => kind.isNaming → Bare text) bare_cut given

end Lexer

theorem Lexemes.bare_ofSource {source : Text} {lexemes : Lexemes}
    (given : Lexemes.ofSource source = some lexemes) : ∀ token ∈ lexemes.tokens, token.Bare := by
  obtain ⟨pieces, cut, rfl⟩ := Option.map_eq_some_iff.mp given
  intro token found
  obtain ⟨⟨kind, text, start⟩, inside, token⟩ := List.mem_filterMap.mp found
  cases kind with
  | token kind =>
      cases token
      exact Lexer.bare_pieces cut _ inside
  | trivia => cases token

end DocSig.Php
