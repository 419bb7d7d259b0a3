import DocSig.DocType.Words
import DocSig.Proofs.Text.Scan

/-!
The words of a type as a writer sees them, and that the readers take exactly one such word off
a text whose next character does not go on with it.
-/

set_option autoImplicit false

namespace DocSig.DocType

/-- A name that the grammar reads as one word: complete, and with no white space in it. -/
def isName (s : Text) : Bool :=
  s.head?.any isNameStart && s.tail.all isNameChar && s.getLast? != some '\\' &&
    s.all fun c => !isBlank c

def isDigitLed (s : Text) : Bool := s.head?.any Char.isDigit && s.all isNumberChar

def isNumber : Text → Bool
  | '-' :: s => isDigitLed s
  | s => isDigitLed s

/-- One complete quoted string: no quote but the last character closes it. -/
def isQuoted : Text → Bool
  | [] => false
  | c :: s => (c == '\'' || c == '"') && Text.closesAtEnd c s

/-- The name of a constant behind `::`. -/
def isConstant (s : Text) : Bool := !s.isEmpty && s.all isConstantChar

def isKey (s : Text) : Bool := isName s || isDigitLed s || isQuoted s

theorem isName_iff (s : Text) :
    isName s = true ↔ ∃ c more, s = c :: more ∧ isNameStart c = true ∧
      (∀ d ∈ more, isNameChar d = true) ∧ s.getLast? ≠ some '\\' ∧ ∀ d ∈ s, isBlank d = false := by
  cases s with
  | nil => simp [isName]
  | cons c more =>
      simp only [isName, List.head?_cons, Option.any_some, List.tail_cons, Bool.and_eq_true,
        List.all_eq_true, bne_iff_ne, Bool.not_eq_true', List.cons.injEq]
      constructor
      · rintro ⟨⟨⟨start, run⟩, complete⟩, solid⟩
        exact ⟨c, more, ⟨rfl, rfl⟩, start, run, complete, solid⟩
      · rintro ⟨_, _, ⟨rfl, rfl⟩, start, run, complete, solid⟩
        exact ⟨⟨⟨start, run⟩, complete⟩, solid⟩

theorem isDigitLed_iff (s : Text) :
    isDigitLed s = true ↔ ∃ c more, s = c :: more ∧ c.isDigit = true ∧
      ∀ d ∈ s, isNumberChar d = true := by
  cases s with
  | nil => simp [isDigitLed]
  | cons c more => simp [isDigitLed]

theorem isQuoted_iff (s : Text) :
    isQuoted s = true ↔ ∃ quote body, s = quote :: body ∧ (quote = '\'' ∨ quote = '"') ∧
      Text.closesAtEnd quote body = true := by
  cases s with
  | nil => simp [isQuoted]
  | cons c body => simp [isQuoted]

theorem isNameStart_of_isDigit {c : Char} (digit : c.isDigit = true) : isNameStart c = false := by
  have apart := of_codes (fun c => !isNameStart c) (mem_digitCodes digit) (by decide)
  simpa using apart

/-- A white space character of ASCII is one of six. -/
theorem ascii_blank_cases (c : Char) (ascii : isAscii c = true) (blank : isBlank c = true) :
    c = ' ' ∨ c = '\t' ∨ c = '\n' ∨ c = '\x0b' ∨ c = '\x0c' ∨ c = '\r' := by
  have cases : c.toNat = 32 ∨ c.toNat = 9 ∨ c.toNat = 10 ∨ c.toNat = 11 ∨ c.toNat = 12 ∨
      c.toNat = 13 := by
    simp only [isAscii, isBlank, decide_eq_true_eq, Bool.or_eq_true, Bool.and_eq_true,
      beq_iff_eq] at ascii blank
    omega
  have same : ∀ d : Char, c.toNat = d.toNat → c = d :=
    fun d equal => Char.ext (UInt32.toNat_inj.mp equal)
  rcases cases with h | h | h | h | h | h
  · exact Or.inl (same ' ' h)
  · exact Or.inr (Or.inl (same '\t' h))
  · exact Or.inr (Or.inr (Or.inl (same '\n' h)))
  · exact Or.inr (Or.inr (Or.inr (Or.inl (same '\x0b' h))))
  · exact Or.inr (Or.inr (Or.inr (Or.inr (Or.inl (same '\x0c' h)))))
  · exact Or.inr (Or.inr (Or.inr (Or.inr (Or.inr (same '\r' h)))))

/-- A character that may stand right behind a written type: white space of ASCII, or what ends
an item, closes a bracket, or joins types. -/
def isFollower (c : Char) : Bool :=
  isAscii c && isBlank c || c == ',' || c == '>' || c == '\x7d' || c == ')' || c == '|' || c == '&'

/-- What no word goes on with, nor a name with brackets or a constant. -/
structure EndsWord (c : Char) : Prop where
  name : isNameChar c = false
  number : isNumberChar c = false
  constant : isConstantChar c = false
  colon : c ≠ ':'
  angle : c ≠ '<'
  brace : c ≠ '\x7b'
  paren : c ≠ '('

theorem isFollower_cases (c : Char) (follower : isFollower c = true) :
    c = ' ' ∨ c = '\t' ∨ c = '\n' ∨ c = '\x0b' ∨ c = '\x0c' ∨ c = '\r' ∨ c = ',' ∨ c = '>' ∨
      c = '\x7d' ∨ c = ')' ∨ c = '|' ∨ c = '&' := by
  simp only [isFollower, Bool.or_eq_true, Bool.and_eq_true, beq_iff_eq] at follower
  rcases follower with (((((⟨ascii, blank⟩ | h) | h) | h) | h) | h) | h
  · have := ascii_blank_cases c ascii blank
    tauto
  all_goals tauto

theorem EndsWord.of_follower {c : Char} (follower : isFollower c = true) : EndsWord c := by
  rcases isFollower_cases c follower with
    rfl | rfl | rfl | rfl | rfl | rfl | rfl | rfl | rfl | rfl | rfl | rfl <;>
    exact ⟨by decide, by decide, by decide, by decide, by decide, by decide, by decide⟩

theorem EndsWord.bracket : EndsWord '[' :=
  ⟨by decide, by decide, by decide, by decide, by decide, by decide, by decide⟩

theorem readName_append (s rest : Text) (name : isName s = true)
    (stop : StopsAt isNameChar rest) : readName (s ++ rest) = (s, rest) := by
  obtain ⟨c, more, rfl, start, run, -, -⟩ := (isName_iff s).mp name
  simp only [List.cons_append, readName, start, ↓reduceIte,
    takeWhile_word isNameChar more rest run stop, dropWhile_word isNameChar more rest run stop]

/-- The name and the rest are the text. -/
theorem readName_split (s : Text) : (readName s).1 ++ (readName s).2 = s := by
  cases s with
  | nil => rfl
  | cons c s =>
      rw [readName]
      split
      · simp
      · rfl

theorem readName_stops (s : Text) (found : (readName s).1 ≠ []) :
    StopsAt isNameChar (readName s).2 := by
  cases s with
  | nil => exact absurd rfl found
  | cons c s =>
      rw [readName] at found ⊢
      split
      · exact stopsAt_dropWhile isNameChar s
      · next plain => simp [plain] at found

theorem readNumber_append (s rest : Text) (number : isNumber s = true)
    (stop : StopsAt isNumberChar rest) : readNumber (s ++ rest) = (s, rest) := by
  have digits : ∀ word, isDigitLed word = true →
      (word ++ rest).takeWhile isNumberChar = word ∧
        (word ++ rest).dropWhile isNumberChar = rest := by
    intro word led
    obtain ⟨-, -, -, -, all⟩ := (isDigitLed_iff word).mp led
    exact ⟨takeWhile_word _ word rest all stop, dropWhile_word _ word rest all stop⟩
  unfold isNumber at number
  split at number
  · next word =>
      simp only [List.cons_append, readNumber, (digits word number).1, (digits word number).2]
  · next unsigned =>
      have plain : ∀ word, s ++ rest ≠ '-' :: word := by
        intro word equal
        obtain ⟨c, more, rfl, digit, -⟩ := (isDigitLed_iff s).mp number
        simp only [List.cons_append, List.cons.injEq] at equal
        rw [equal.1] at digit
        exact absurd digit (by decide)
      rw [readNumber.eq_def]
      split
      · next equal => exact absurd equal (plain _)
      · rw [(digits s number).1, (digits s number).2]

/-- A number is read as one wherever it stands. -/
theorem startsNumber_append (s rest : Text) (number : isNumber s = true) :
    startsNumber (s ++ rest) = true := by
  unfold isNumber at number
  split at number
  · next word =>
      obtain ⟨c, more, rfl, digit, -⟩ := (isDigitLed_iff word).mp number
      simpa [startsNumber] using digit
  · next unsigned =>
      obtain ⟨c, more, rfl, digit, -⟩ := (isDigitLed_iff s).mp number
      rw [List.cons_append, startsNumber.eq_def]
      split <;> simp_all

end DocSig.DocType
