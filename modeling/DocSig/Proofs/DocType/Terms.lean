import DocSig.Proofs.DocType.Runs

/-!
Types outside of `|` and `&` are read back: words, types in parentheses, and what stands before
a type or behind it.

`ReadsTerm` and `ReadsBack` say of one type that its text is read back; the lemmas give it for a
construct from its parts. What stands behind a type is left alone if it cannot go on with it
(`Follows`).
-/

set_option autoImplicit false

namespace DocSig.DocType

/-- What may stand behind a type at a depth without going on with it. -/
structure Follows (depth : Nat) (type : DocType) (rest : Text) : Prop where
  word : ∀ c ∈ rest.head?, isFollower c = true
  result : EndsInParameters type → (behindSeparators depth rest).head? ≠ some ':'
  alternative : (behindSeparators depth rest).head? ≠ some '|'
  conjunct : ∀ more, behindSeparators depth rest = '&' :: more →
    startsVariable (behindSeparators depth more) = true

/-- A type outside of `|` and `&` is read back and wrapped by the `[]` behind it, if it does not
take them itself. -/
def ReadsTerm (type : DocType) : Prop :=
  ∀ allowance depth rest, 2 * type.text.length ≤ allowance → (∀ c ∈ rest.head?, EndsWord c) →
    (type.takesArrays = true → rest.head? ≠ some '[') →
    (EndsInParameters type → (behindSeparators depth rest).head? ≠ some ':') →
    readTerm allowance ⟨type.text ++ rest, depth⟩ =
      .ok ((wrapArrays type rest).1, ⟨(wrapArrays type rest).2, depth⟩)

/-- A type is read back where nothing goes on with it. -/
def ReadsBack (type : DocType) : Prop :=
  ∀ allowance depth rest, 2 * type.text.length + 1 ≤ allowance → Follows depth type rest →
    readUnion allowance ⟨type.text ++ rest, depth⟩ = .ok (type, ⟨rest, depth⟩)

theorem exists_allowance {needed allowance : Nat} (enough : needed ≤ allowance)
    (positive : 0 < needed) : ∃ n, allowance = n + 1 := ⟨allowance - 1, by omega⟩

theorem Opening.length_pos {s : Text} (opening : Opening s) : 0 < s.length := by
  obtain ⟨c, more, rfl, -⟩ := opening.head
  simp

/-- Punctuation behind a type that neither joins it nor begins a result. -/
theorem follows_of_solid (depth : Nat) (type : DocType) (c : Char) (rest : Text)
    (solid : isBlank c = false) (follower : isFollower c = true)
    (apart : c ≠ ':' ∧ c ≠ '|' ∧ c ≠ '&') : Follows depth type (c :: rest) := by
  have stays := behindSeparators_solid depth c rest solid
  refine ⟨?_, ?_, ?_, ?_⟩
  · intro d found
    cases found
    exact follower
  · rw [stays]
    simpa using fun _ => apart.1
  · rw [stays]
    simpa using apart.2.1
  · rw [stays]
    intro more equal
    exact absurd (by simpa using congrArg List.head? equal) apart.2.2

/-- Within brackets, a word or a mark behind a space. -/
theorem follows_of_space (depth : Nat) (type : DocType) (c : Char) (rest : Text)
    (solid : isBlank c = false) (notJoin : c ≠ '|' ∧ c ≠ '&')
    (notResult : EndsInParameters type → c ≠ ':') :
    Follows depth type (' ' :: c :: rest) := by
  have stays := (behindSeparators_space depth (c :: rest)).trans
    (behindSeparators_solid depth c rest solid)
  refine ⟨?_, ?_, ?_, ?_⟩
  · intro d found
    cases found
    decide
  · rw [stays]
    simpa using notResult
  · rw [stays]
    simpa using notJoin.1
  · rw [stays]
    intro more equal
    exact absurd (by simpa using congrArg List.head? equal) notJoin.2

theorem follows_nil (depth : Nat) (type : DocType) : Follows depth type [] := by
  refine ⟨nofun, fun _ => ?_, ?_, ?_⟩
  · simp
  · simp
  · simp

/-- An `&` that passes a variable by reference does not join a type. -/
theorem follows_of_reference (type : DocType) (rest : Text)
    (passes : startsVariable (behindSeparators 0 rest) = true) :
    Follows 0 type (' ' :: '&' :: rest) := by
  have stays := (behindSeparators_space 0 ('&' :: rest)).trans
    (behindSeparators_solid 0 '&' rest (by decide))
  refine ⟨?_, fun _ => ?_, ?_, ?_⟩
  · intro c found
    cases found
    decide
  · rw [stays]
    simp
  · rw [stays]
    simp
  · rw [stays]
    intro more equal
    cases equal
    exact passes

theorem Follows.endsWord {depth : Nat} {type : DocType} {rest : Text}
    (follows : Follows depth type rest) : ∀ c ∈ rest.head?, EndsWord c :=
  fun c found => EndsWord.of_follower (follows.word c found)

theorem not_bracket_of_follower {rest : Text} (word : ∀ c ∈ rest.head?, isFollower c = true) :
    rest.head? ≠ some '[' := by
  intro bracket
  exact absurd (word '[' bracket) (by decide)

theorem stopsAt_of_endsWord {class? : Char → Bool} {rest : Text}
    (ends : ∀ c ∈ rest.head?, EndsWord c) (outside : ∀ c, EndsWord c → class? c = false) :
    StopsAt class? rest :=
  fun c found => outside c (ends c found)

/-- A name is read with what goes on with it. -/
theorem atom_of_name {union term : Reader DocType} {allowance depth : Nat} {base rest : Text}
    {type : DocType} {there : Cursor} (name : isName base = true) (stop : StopsAt isNameChar rest)
    (run : NameRun union term allowance base depth rest type there) :
    atom union term allowance ⟨base ++ rest, depth⟩ = .ok (type, there) := by
  obtain ⟨-, -, -, -, -, complete, -⟩ := (isName_iff base).mp name
  rw [atom_name _ _ _ _ base rest name]
  refine named_ok_iff.mpr ?_
  dsimp only
  rw [readName_append base rest name stop]
  exact ⟨complete, run⟩

theorem readsTerm_name {s : Text} (name : isName s = true) : ReadsTerm (.name s) := by
  intro allowance depth rest enough ends _ _
  obtain ⟨c, more, equal, -⟩ := (isName_iff s).mp name
  obtain ⟨n, rfl⟩ := exists_allowance enough (by simp [text, equal])
  apply readTerm_of_atom
  rw [text]
  refine atom_of_name name (stopsAt_of_endsWord ends fun _ => EndsWord.name) (.name ?_ ?_ ?_ ?_)
  · rintro more rfl
    exact absurd rfl (ends ':' rfl).colon
  · rintro more rfl
    exact absurd rfl (ends '<' rfl).angle
  · rintro more rfl
    exact absurd rfl (ends '\x7b' rfl).brace
  · rintro more rfl
    exact absurd rfl (ends '(' rfl).paren

theorem readsTerm_constant {name word : Text} (named : isName name = true)
    (constant : isConstant word = true) : ReadsTerm (.literal (name ++ ':' :: ':' :: word)) := by
  intro allowance depth rest enough ends _ _
  obtain ⟨c, more, equal, -⟩ := (isName_iff name).mp named
  obtain ⟨n, rfl⟩ := exists_allowance enough (by simp [text, equal])
  simp only [isConstant, Bool.and_eq_true, List.all_eq_true, Bool.not_eq_true'] at constant
  have stop : StopsAt isConstantChar rest := stopsAt_of_endsWord ends fun _ => EndsWord.constant
  have taken := takeWhile_word isConstantChar word rest constant.2 stop
  have run : NameRun (readUnion n) (readTerm n) n name depth (':' :: ':' :: (word ++ rest)) _ _ :=
    .constant (by
      rw [taken]
      exact List.isEmpty_eq_false_iff.mp constant.1)
  rw [taken, dropWhile_word isConstantChar word rest constant.2 stop] at run
  apply readTerm_of_atom
  rw [text, List.append_assoc]
  exact atom_of_name named (by simp [show isNameChar ':' = false by decide]) run

theorem readsTerm_quoted {s : Text} (quoted : isQuoted s = true) : ReadsTerm (.literal s) := by
  intro allowance depth rest enough _ _ _
  obtain ⟨quote, body, rfl, kind, closed⟩ := (isQuoted_iff s).mp quoted
  obtain ⟨n, rfl⟩ := exists_allowance enough (by simp [text])
  have plain : quote ≠ '\\' ∧ quote ≠ '?' ∧ quote ≠ '(' ∧ isBlank quote = false := by
    rcases kind with rfl | rfl <;> decide
  apply readTerm_of_atom
  rw [text, List.cons_append, atom, atom_cursor depth quote _ plain.2.2.2]
  simp only [plain.2.1, plain.2.2.1, kind, ↓reduceIte,
    Text.readQuoted_append quote body rest closed plain.1]

theorem isNumber_head {s : Text} (number : isNumber s = true) :
    ∃ c more, s = c :: more ∧ isBlank c = false ∧ c ≠ '?' ∧ c ≠ '(' ∧ ¬(c = '\'' ∨ c = '"') := by
  have digits : ∀ word, isDigitLed word = true → ∃ c more, word = c :: more ∧ isBlank c = false ∧
      c ≠ '?' ∧ c ≠ '(' ∧ ¬(c = '\'' ∨ c = '"') := by
    intro word led
    obtain ⟨c, more, rfl, digit, -⟩ := (isDigitLed_iff word).mp led
    refine ⟨c, more, rfl, isBlank_of_isDigit digit, ?_, ?_, ?_⟩
    · rintro rfl
      exact absurd digit (by decide)
    · rintro rfl
      exact absurd digit (by decide)
    · rintro (rfl | rfl)
      · exact absurd digit (by decide)
      · exact absurd digit (by decide)
  unfold isNumber at number
  split at number
  · exact ⟨'-', _, rfl, by decide, by decide, by decide, by decide⟩
  · exact digits s number

theorem readsTerm_number {s : Text} (number : isNumber s = true) : ReadsTerm (.literal s) := by
  intro allowance depth rest enough ends _ _
  obtain ⟨c, more, equal, solid, notMark, notParen, notQuote⟩ := isNumber_head number
  obtain ⟨n, rfl⟩ := exists_allowance enough (by simp [text, equal])
  have starts := startsNumber_append s rest number
  have read := readNumber_append s rest number (stopsAt_of_endsWord ends fun _ => EndsWord.number)
  apply readTerm_of_atom
  rw [text]
  rw [equal, List.cons_append] at starts read ⊢
  rw [atom, atom_cursor depth c _ solid]
  simp only [notMark, notParen, notQuote, starts, read, ↓reduceIte]

theorem readTerm_parenthesized {type : DocType} (reads : ReadsBack type)
    (opening : Opening type.text) (allowance depth : Nat) (rest : Text)
    (enough : 2 * (type.text.length + 2) ≤ allowance) :
    readTerm allowance ⟨'(' :: (type.text ++ ')' :: rest), depth⟩ =
      .ok ((wrapArrays type rest).1, ⟨(wrapArrays type rest).2, depth⟩) := by
  obtain ⟨n, rfl⟩ := exists_allowance enough (by omega)
  have inner := reads n (depth + 1) (')' :: rest) (by omega)
    (follows_of_solid _ type ')' rest (by decide) (by decide) (by decide))
  have noWord : readName (')' :: rest) = ([], ')' :: rest) := rfl
  apply readTerm_of_atom
  rw [atom, atom_cursor depth '(' _ (by decide)]
  simp only [Cursor.enter, grouped, skipBlank_eq, trimStart_opening opening, inner, bind_ok,
    Text.trimStart_cons_solid ')' rest (by decide), noWord, expect_solid ')' rest _ (by decide)]
  rfl

theorem readTerm_member {type : DocType} (term : type.isCompound = false → ReadsTerm type)
    (reads : ReadsBack type) (opening : Opening type.text) (allowance depth : Nat) (rest : Text)
    (enough : 2 * type.memberText.length ≤ allowance)
    (word : ∀ c ∈ rest.head?, isFollower c = true)
    (result : type.isCompound = false → EndsInParameters type →
      (behindSeparators depth rest).head? ≠ some ':') :
    readTerm allowance ⟨type.memberText ++ rest, depth⟩ = .ok (type, ⟨rest, depth⟩) := by
  have noBracket := not_bracket_of_follower word
  have plain : wrapArrays type rest = (type, rest) := wrapArrays_of_head type rest noBracket
  cases compound : type.isCompound with
  | true =>
      have written : type.memberText ++ rest = '(' :: (type.text ++ ')' :: rest) := by
        simp [memberText, parenthesizedIf, compound]
      rw [written, readTerm_parenthesized reads opening, plain]
      simpa [memberText, parenthesizedIf, compound] using enough
  | false =>
      have written : type.memberText = type.text := by
        simp [memberText, parenthesizedIf, compound]
      rw [written] at enough ⊢
      rw [term compound allowance depth rest enough
        (fun c found => EndsWord.of_follower (word c found)) (fun _ => noBracket)
        (result compound), plain]

theorem readsTerm_nullable {inner : DocType} (reads : ReadsTerm inner) :
    ReadsTerm (.nullable inner) := by
  intro allowance depth rest enough ends arrays result
  rw [text, List.length_cons] at enough
  obtain ⟨n, rfl⟩ := exists_allowance enough (by omega)
  have noBracket := arrays rfl
  have read := reads n depth rest (by omega) ends (fun _ => noBracket)
    (fun open' => result (.nullable open'))
  rw [wrapArrays_of_head inner rest noBracket] at read
  apply readTerm_of_atom
  rw [text, List.cons_append, atom, atom_cursor depth '?' _ (by decide)]
  simp only [↓reduceIte, read, bind_ok]
  rfl

theorem readsTerm_array {item : DocType}
    (noResult : ∀ base parameters result, item ≠ .callable base parameters (some result))
    (term : item.isCompound = false → ReadsTerm item) (reads : ReadsBack item)
    (opening : Opening item.text) : ReadsTerm (.array item) := by
  intro allowance depth rest enough _ _ _
  rw [array_text] at enough ⊢
  rw [← wrapArrays_bracket item rest]
  cases wrapped : item.needsParentheses with
  | true =>
      have written : parenthesizedIf true item.text ++ ['[', ']'] ++ rest =
          '(' :: (item.text ++ ')' :: '[' :: ']' :: rest) := by
        simp [parenthesizedIf]
      rw [written]
      apply readTerm_parenthesized reads opening
      simp only [wrapped, parenthesizedIf, ↓reduceIte, List.length_append, List.length_cons,
        List.length_nil] at enough
      omega
  | false =>
      have written : parenthesizedIf false item.text ++ ['[', ']'] ++ rest =
          item.text ++ '[' :: ']' :: rest := by
        simp [parenthesizedIf]
      have simple : item.isCompound = false ∧ item.takesArrays = false := by
        cases item with
        | callable base parameters result =>
            cases result with
            | none => exact ⟨rfl, rfl⟩
            | some result => exact absurd rfl (noResult base parameters result)
        | _ => simp_all [needsParentheses, isCompound, takesArrays]
      rw [written]
      apply term simple.1
      · simp only [wrapped, parenthesizedIf, Bool.false_eq_true, ↓reduceIte, List.length_append]
          at enough
        omega
      · intro c found
        cases found
        exact EndsWord.bracket
      · intro takes
        rw [simple.2] at takes
        cases takes
      · intro _
        rw [behindSeparators_solid depth '[' _ (by decide)]
        simp

end DocSig.DocType
