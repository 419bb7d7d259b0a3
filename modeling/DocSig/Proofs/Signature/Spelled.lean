import DocSig.Proofs.DocType.Shape
import DocSig.Signature

/-!
How the texts of types are spelled.

The text of a tree that was read is put together from words, from quoted strings, each closed by
its last character, and from brackets around such a text; commas stand between brackets only
(`spelled_text`). What a scan over the text does therefore need not be told for every kind of
type.
-/

set_option autoImplicit false

namespace DocSig.Signature

/-- What stands behind each item of a line. -/
def isSeparator (c : Char) : Bool := c == ',' || c == ';'

def isOpening (c : Char) : Bool := c == '(' || c == '[' || c == '\x7b' || c == '<'

def isClosing (c : Char) : Bool := c == ')' || c == ']' || c == '\x7d' || c == '>'

def isQuote (c : Char) : Bool := c == '\'' || c == '"'

def isInert (c : Char) : Bool := !isSeparator c && !isOpening c && !isClosing c && !isQuote c

def isPlainMark (c : Char) : Bool := isInert c && isBare c

/-- A text of whole words, strings and brackets; `nested` if it stands within brackets. -/
inductive Spelled : Bool → Text → Prop
  | nil {nested : Bool} : Spelled nested []
  | mark {nested : Bool} {c : Char} : isPlainMark c = true → Spelled nested [c]
  | separator {c : Char} : isSeparator c = true → Spelled true [c]
  | quoted {nested : Bool} {s : Text} : DocType.isQuoted s = true → Spelled nested s
  | bracketed {nested : Bool} {s : Text} {start close : Char} : isOpening start = true →
      isClosing close = true → Spelled true s → Spelled nested (start :: (s ++ [close]))
  | append {nested : Bool} {s t : Text} : Spelled nested s → Spelled nested t →
      Spelled nested (s ++ t)

namespace Spelled

variable {nested : Bool} {s : Text}

theorem word (plain : ∀ c ∈ s, isPlainMark c = true) : Spelled nested s := by
  induction s with
  | nil => exact nil
  | cons c s ih =>
      obtain ⟨here, later⟩ := List.forall_mem_cons.mp plain
      exact (mark here).append (ih later)

/-- Parts in brackets with a comma and a space between them. -/
theorem list {parts : List Text} {start close : Char} (opens : isOpening start = true)
    (closes : isClosing close = true) (each : ∀ part ∈ parts, Spelled true part) :
    Spelled nested (start :: (Text.join [',', ' '] parts ++ [close])) := by
  have comma : Spelled true [','] := separator rfl
  exact bracketed opens closes
    (Text.join_induction nil (fun _ _ => append) (comma.append (mark (c := ' ') (by decide))) each)

theorem parenthesizedIf (wrapped : Bool) (inside : ∀ nested, Spelled nested s) :
    Spelled nested (DocType.parenthesizedIf wrapped s) := by
  unfold DocType.parenthesizedIf
  split
  · exact bracketed rfl rfl (inside true)
  · exact inside nested

end Spelled

section

open DocType

variable {nested : Bool} {s : Text}

theorem isPlainMark_of_word {c : Char}
    (word : isNameStart c = true ∨ isNameChar c = true ∨ isNumberChar c = true ∨
      isConstantChar c = true) : isPlainMark c = true := by
  by_contra marked
  have mark : c = ',' ∨ c = ';' ∨ c = '(' ∨ c = '[' ∨ c = '\x7b' ∨ c = '<' ∨ c = ')' ∨ c = ']' ∨
      c = '\x7d' ∨ c = '>' ∨ c = '\'' ∨ c = '"' ∨ c = '\n' ∨ c = '\r' := by
    simp only [isPlainMark, isInert, isSeparator, isOpening, isClosing, isQuote, isBare,
      Bool.and_eq_true, Bool.not_eq_true', Bool.or_eq_false_iff, beq_eq_false_iff_ne,
      bne_iff_ne] at marked
    tauto
  rcases mark with rfl | rfl | rfl | rfl | rfl | rfl | rfl | rfl | rfl | rfl | rfl | rfl | rfl |
    rfl <;> revert word <;> decide

theorem spelled_isWord (word : isWord s = true) : Spelled nested s := by
  refine Spelled.word fun c found => isPlainMark_of_word ?_
  cases s with
  | nil => cases found
  | cons first more =>
      simp only [isWord, List.head?_cons, Option.any_some, List.tail_cons, Bool.and_eq_true,
        List.all_eq_true] at word
      rcases List.mem_cons.mp found with rfl | later
      · exact Or.inl word.1
      · exact Or.inr (Or.inl (word.2 c later))

theorem spelled_isCompleteWord (word : isCompleteWord s = true) : Spelled nested s :=
  spelled_isWord (by simp only [isCompleteWord, Bool.and_eq_true] at word; exact word.1)

theorem spelled_isDigitLed (led : isDigitLed s = true) : Spelled nested s := by
  obtain ⟨-, -, -, -, all⟩ := (isDigitLed_iff s).mp led
  exact Spelled.word fun c found => isPlainMark_of_word (Or.inr (Or.inr (Or.inl (all c found))))

theorem spelled_isNumber (number : isNumber s = true) : Spelled nested s := by
  unfold isNumber at number
  split at number
  · exact (Spelled.mark (c := '-') (by decide)).append (spelled_isDigitLed number)
  · exact spelled_isDigitLed number

theorem spelled_isConstant (constant : isConstant s = true) : Spelled nested s := by
  simp only [isConstant, Bool.and_eq_true, List.all_eq_true] at constant
  exact Spelled.word fun c found =>
    isPlainMark_of_word (Or.inr (Or.inr (Or.inr (constant.2 c found))))

theorem spelled_isReadKey (key : isReadKey s = true) : Spelled nested s := by
  simp only [isReadKey, Bool.or_eq_true] at key
  rcases key with (word | led) | quoted
  · exact spelled_isWord word
  · exact spelled_isDigitLed led
  · exact Spelled.quoted quoted

theorem spelled_keyText {entry : ShapeEntry DocType} (shaped : EntryShaped entry) :
    Spelled nested (keyText entry.key entry.isOptional) := by
  obtain ⟨key, isOptional, value⟩ := entry
  cases key with
  | none => exact Spelled.nil
  | some key =>
      refine (spelled_isReadKey shaped).append ?_
      cases isOptional with
      | false => exact Spelled.word (s := [':', ' ']) (forall_of_all (by decide))
      | true => exact Spelled.word (s := ['?', ':', ' ']) (forall_of_all (by decide))

/-- The text of a type that was read, within brackets or not. -/
theorem spelled_text {type : DocType} (shaped : WellShaped type) :
    ∀ nested, Spelled nested type.text := by
  -- over the tree; what is in brackets is spelled the same way there
  induction shaped with
  | name word => exact fun _ => spelled_isCompleteWord word
  | quoted word => exact fun _ => Spelled.quoted word
  | number word => exact fun _ => spelled_isNumber word
  | constant name word =>
      intro nested
      refine (spelled_isCompleteWord name).append ?_
      have colons : Spelled nested [':', ':'] := Spelled.word (forall_of_all (by decide))
      exact colons.append (spelled_isConstant word)
  | nullable _ ih =>
      intro nested
      rw [text]
      exact (Spelled.mark (c := '?') (by decide)).append (ih nested)
  | array _ ih =>
      intro nested
      rw [text]
      exact (Spelled.parenthesizedIf _ ih).append (Spelled.bracketed rfl rfl Spelled.nil)
  | @generic base arguments name _ _ ih =>
      intro nested
      rw [text, texts_eq_map]
      refine (spelled_isCompleteWord name).append (Spelled.list rfl rfl ?_)
      intro part found
      obtain ⟨argument, inside, rfl⟩ := List.mem_map.mp found
      by_cases any : argument = star
      · rw [any]
        exact Spelled.mark (c := '*') (by decide)
      · exact ih argument inside any true
  | shape name keys _ ih =>
      intro nested
      rw [text, entryTexts_eq_map]
      refine (spelled_isCompleteWord name).append (Spelled.list rfl rfl ?_)
      intro part found
      obtain ⟨entry, inside, rfl⟩ := List.mem_map.mp found
      exact (spelled_keyText (keys entry inside)).append (ih entry inside true)
  | @callable base parameters result name _ _ _ ofParameters ofResult =>
      intro nested
      have inside : Spelled nested ('(' :: (Text.join [',', ' '] (texts parameters) ++ [')'])) := by
        refine Spelled.list rfl rfl ?_
        intro part found
        rw [texts_eq_map] at found
        obtain ⟨parameter, inside, rfl⟩ := List.mem_map.mp found
        exact ofParameters parameter inside true
      have behind : Spelled nested (resultText result) := by
        cases result with
        | none => exact Spelled.nil
        | some type =>
            have colon : Spelled nested [':', ' '] := Spelled.word (forall_of_all (by decide))
            exact colon.append (ofResult type rfl nested)
      have whole := (spelled_isCompleteWord name).append (inside.append behind)
      simpa [text] using whole
  | @conditional subject target positive negative negated _ _ _ _ ofSubject ofTarget ofPositive
      ofNegative =>
      intro nested
      have is : Spelled true (if negated then " is not ".toList else " is ".toList) := by
        cases negated <;> exact Spelled.word (forall_of_all (by decide))
      have mark : Spelled true " ? ".toList := Spelled.word (forall_of_all (by decide))
      have colon : Spelled true " : ".toList := Spelled.word (forall_of_all (by decide))
      have inside := ((((((ofSubject true).append is).append (ofTarget true)).append
        mark).append (ofPositive true)).append colon).append (ofNegative true)
      rw [text]
      exact Spelled.bracketed rfl rfl inside
  | union _ _ _ ih =>
      intro nested
      rw [text, memberTexts_eq_map]
      refine Text.join_induction Spelled.nil (fun _ _ => Spelled.append)
        (Spelled.mark (by decide)) ?_
      intro part found
      obtain ⟨member, inside, rfl⟩ := List.mem_map.mp found
      exact Spelled.parenthesizedIf _ (ih member inside)
  | intersection _ _ ih =>
      intro nested
      rw [text, memberTexts_eq_map]
      refine Text.join_induction Spelled.nil (fun _ _ => Spelled.append)
        (Spelled.mark (by decide)) ?_
      intro part found
      obtain ⟨member, inside, rfl⟩ := List.mem_map.mp found
      exact Spelled.parenthesizedIf _ (ih member inside)

end

end DocSig.Signature
