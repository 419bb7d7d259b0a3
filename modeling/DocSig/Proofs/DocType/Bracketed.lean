import DocSig.Proofs.DocType.Terms

/-!
Types with brackets are read back: generic types, shapes, callables and conditions. The items
within the brackets are types with something before or behind them, which their readers skip.
-/

set_option autoImplicit false

namespace DocSig.DocType

/-- What follows an item of a list. -/
theorem follows_item (depth : Nat) (type : DocType) (close c : Char) (more : Text)
    (bracket : close = '>' ∨ close = '\x7d' ∨ close = ')') (next : c = ',' ∨ c = close) :
    Follows depth type (c :: more) := by
  rcases next with rfl | rfl
  · exact follows_of_solid depth type ',' more (by decide) (by decide) (by decide)
  · rcases bracket with rfl | rfl | rfl <;>
      exact follows_of_solid depth type _ more (by decide) (by decide) (by decide)

/-- No type begins with a variance mark and white space. -/
theorem opening_not_variance {s : Text} (opening : Opening s) (c : Char) (more : Text)
    (solid : isBlank c = false) (stop : isNameChar c = false) :
    (isVariance (readName (s ++ c :: more)).1 &&
      (readName (s ++ c :: more)).2.head?.any isBlank) = false := by
  have noName : ∀ d rest, isNameStart d = false → readName (d :: rest) = ([], d :: rest) := by
    intro d rest plain
    simp [readName, plain]
  have unmarked : isVariance [] = false := rfl
  cases opening with
  | mark d rest kind =>
      have plain : isNameStart d = false := by rcases kind with rfl | rfl <;> decide
      rw [List.cons_append, noName d _ plain, unmarked, Bool.false_and]
  | quoted word tail quoted _ =>
      obtain ⟨quote, body, rfl, kind, -⟩ := (isQuoted_iff word).mp quoted
      have plain : isNameStart quote = false := by rcases kind with rfl | rfl <;> decide
      rw [List.cons_append, List.cons_append, noName quote _ plain, unmarked, Bool.false_and]
  | number word tail number _ =>
      unfold isNumber at number
      split at number
      · rw [List.cons_append, List.cons_append, noName '-' _ (by decide), unmarked, Bool.false_and]
      · obtain ⟨d, rest, rfl, digit, -⟩ := (isDigitLed_iff word).mp number
        rw [List.cons_append, List.cons_append, noName d _ (isNameStart_of_isDigit digit), unmarked,
          Bool.false_and]
  | name word tail name extended =>
      have split := readName_append word (tail ++ c :: more) name (by
        cases tail with
        | nil => simpa using stop
        | cons d tail =>
            rcases extended with heads | ⟨rest, equal⟩
            · rcases heads d rfl with rfl | rfl | rfl | rfl | rfl | rfl <;> simp <;> decide
            · cases equal
              simp
              decide)
      rw [List.append_assoc, split]
      have visible : (tail ++ c :: more).head?.any isBlank = false := by
        cases tail with
        | nil => simpa using solid
        | cons d tail =>
            rcases extended with heads | ⟨rest, equal⟩
            · rcases heads d rfl with rfl | rfl | rfl | rfl | rfl | rfl <;> simp <;> decide
            · cases equal
              simp
              decide
      rw [visible, Bool.and_false]

theorem typeArgument_written (type : DocType) (allowance depth : Nat) (c : Char) (more : Text)
    (enough : 2 * type.text.length + 1 ≤ allowance) (next : c = ',' ∨ c = '>')
    (opening : type ≠ star → Opening type.text) (reads : type ≠ star → ReadsBack type) :
    typeArgument (readUnion allowance) ⟨type.text ++ c :: more, depth⟩ =
      .ok (type, ⟨c :: more, depth⟩) := by
  by_cases any : type = star
  · subst any
    rfl
  · have opens := opening any
    obtain ⟨d, rest, equal, start, -⟩ := opens.head
    have notStar := ne_of_startsType (d := '*') start (by decide)
    have solid : isBlank c = false ∧ isNameChar c = false := by
      rcases next with rfl | rfl <;> decide
    have unmarked := opening_not_variance opens c more solid.1 solid.2
    have read :=
      reads any allowance depth _ enough (follows_item depth type '>' c more (by simp) next)
    refine typeArgument_ok_iff.mpr (.type (fun rest found => ?_) ?_)
    · dsimp only at found
      rw [trimStart_opening opens, equal] at found
      exact notStar (List.cons.inj found).1
    · dsimp only
      rw [trimStart_opening opens, behindVariance, if_neg (by simp [unmarked])]
      exact read

theorem readsTerm_generic {base : Text} {arguments : List DocType} (name : isName base = true)
    (nonempty : arguments ≠ []) (opens : ∀ type ∈ arguments, type ≠ star → Opening type.text)
    (reads : ∀ type ∈ arguments, type ≠ star → ReadsBack type) :
    ReadsTerm (.generic base arguments) := by
  intro allowance depth rest enough _ _ _
  rw [text, texts_eq_map] at enough ⊢
  simp only [List.length_append, List.length_cons, List.length_nil] at enough
  obtain ⟨n, rfl⟩ := exists_allowance enough (by omega)
  have list := listUntil_bracketed (typeArgument (readUnion n)) '>' text id arguments n (depth + 1)
    rest (by decide) (by decide) (by omega)
    (by
      intro type found
      by_cases any : type = star
      · subst any
        exact ⟨'*', [], rfl, by decide, by decide⟩
      · obtain ⟨c, more, equal, start, solid⟩ := (opens type found any).head
        exact ⟨c, more, equal, ne_of_startsType start (by decide), solid⟩)
    (by
      intro type found c more next
      have short := Text.length_le_join [',', ' '] (List.mem_map_of_mem (f := text) found)
      exact typeArgument_written type n (depth + 1) c more (by omega) next (opens type found)
        (reads type found))
  rw [List.map_id] at list
  apply readTerm_of_atom
  rw [show base ++ '<' :: (Text.join [',', ' '] (arguments.map text) ++ ['>']) ++ rest =
    base ++ '<' :: (Text.join [',', ' '] (arguments.map text) ++ '>' :: rest) by simp]
  exact atom_of_name name (by simp; decide) (.generic list nonempty)

theorem keyText_some (key : Text) (isOptional : Bool) (rest : Text) :
    keyText (some key) isOptional ++ rest =
      key ++ (if isOptional then '?' :: ':' :: ' ' :: rest else ':' :: ' ' :: rest) := by
  cases isOptional <;> simp [keyText]

/-- A key is read off the front of an entry, whatever kind it is of. -/
theorem readKey_append (key rest : Text) (fits : isKey key = true)
    (names : StopsAt isNameChar rest) (numbers : StopsAt isNumberChar rest) :
    readKey (key ++ rest) = some (key, rest) := by
  simp only [isKey, Bool.or_eq_true] at fits
  rcases fits with (name | number) | quoted
  · have read := readName_append key rest name names
    obtain ⟨c, more, rfl, start, -⟩ := (isName_iff key).mp name
    obtain ⟨notDigit, -, -, -, notSingle, notDouble⟩ := isNameStart_plain start
    rw [List.cons_append] at read ⊢
    simp only [readKey, notSingle, notDouble, or_self, notDigit, start, read, Bool.false_eq_true,
      ↓reduceIte]
  · have unsigned : isNumber key = true := by
      obtain ⟨c, more, rfl, digit, -⟩ := (isDigitLed_iff key).mp number
      rw [isNumber.eq_def]
      split
      · next equal => cases equal; exact absurd digit (by decide)
      · exact number
    have read := readNumber_append key rest unsigned numbers
    obtain ⟨c, more, equal, -, -, -, notQuote⟩ := isNumber_head unsigned
    obtain ⟨d, others, same, digit, -⟩ := (isDigitLed_iff key).mp number
    rw [equal] at same read ⊢
    cases same
    rw [List.cons_append] at read ⊢
    simp only [readKey, notQuote, digit, read, ↓reduceIte]
  · obtain ⟨quote, body, rfl, kind, closed⟩ := (isQuoted_iff key).mp quoted
    have plain : quote ≠ '\\' := by rcases kind with rfl | rfl <;> decide
    rw [List.cons_append]
    simp only [readKey, kind, ↓reduceIte, Text.readQuoted_append quote body rest closed plain,
      Option.map_some]

theorem readKeyed_written (key : Text) (isOptional : Bool) (rest : Text)
    (fits : isKey key = true) :
    readKeyed (keyText (some key) isOptional ++ rest) = some (key, isOptional, ' ' :: rest) := by
  rw [keyText_some]
  cases isOptional with
  | true =>
      have read := readKey_append key ('?' :: ':' :: ' ' :: rest) fits (by simp; decide)
        (by simp; decide)
      simp only [readKeyed, ↓reduceIte, read, Text.trimStart_cons_solid '?' _ (by decide),
        Text.trimStart_cons_solid ':' _ (by decide)]
  | false =>
      have read := readKey_append key (':' :: ' ' :: rest) fits (by simp; decide) (by simp; decide)
      simp only [readKeyed, Bool.false_eq_true, ↓reduceIte, read,
        Text.trimStart_cons_solid ':' _ (by decide)]

/-- Behind a word that ends there, nothing makes it a key. -/
theorem readKeyed_of_word {s word : Text} {c : Char} {more : Text}
    (read : readKey s = some (word, c :: more)) (solid : isBlank c = false)
    (apart : c ≠ '?' ∧ c ≠ ':') : readKeyed s = none := by
  simp only [readKeyed, read, Text.trimStart_cons_solid c more solid]
  split
  · next found => exact absurd (by simpa using congrArg List.head? found) apart.1
  · next found => exact absurd (by simpa using congrArg List.head? found) apart.2
  · rfl

/-- The first character behind a first word that is no key. -/
theorem joined_head {tail : Text} {c : Char} (more : Text) (joined : Joined tail)
    (next : c = ',' ∨ c = '\x7d') :
    ∃ d rest, tail ++ c :: more = d :: rest ∧ isBlank d = false ∧ (d ≠ '?' ∧ d ≠ ':') ∧
      isNameChar d = false ∧ isNumberChar d = false := by
  cases tail with
  | nil =>
      refine ⟨c, more, rfl, ?_⟩
      rcases next with rfl | rfl <;> decide
  | cons d tail =>
      refine ⟨d, tail ++ c :: more, rfl, ?_⟩
      rcases joined d rfl with rfl | rfl | rfl <;> decide

/-- A value that does not begin with a constant is not taken for a key with its value. -/
theorem readKeyed_bare {s : Text} (opening : Opening s) (plain : ¬ LedByConstant s) (c : Char)
    (more : Text) (next : c = ',' ∨ c = '\x7d') : readKeyed (s ++ c :: more) = none := by
  cases opening with
  | mark d rest kind =>
      have noKey : readKey (d :: (rest ++ c :: more)) = none := by
        rcases kind with rfl | rfl <;> rfl
      simp only [List.cons_append, readKeyed, noKey]
  | quoted word tail quoted joined =>
      obtain ⟨d, rest, equal, solid, apart, names, numbers⟩ := joined_head more joined next
      have read := readKey_append word (d :: rest) (by simp [isKey, quoted])
        (by simpa using names) (by simpa using numbers)
      rw [List.append_assoc, equal]
      exact readKeyed_of_word read solid apart
  | number word tail number joined =>
      obtain ⟨d, rest, equal, solid, apart, names, numbers⟩ := joined_head more joined next
      rw [List.append_assoc, equal]
      unfold isNumber at number
      split at number
      · next digits =>
          have noKey : readKey ('-' :: (digits ++ d :: rest)) = none := rfl
          simp only [List.cons_append, readKeyed, noKey]
      · have read := readKey_append word (d :: rest) (by simp [isKey, number])
          (by simpa using names) (by simpa using numbers)
        exact readKeyed_of_word read solid apart
  | name word tail name extended =>
      have visible : ∃ d rest, tail ++ c :: more = d :: rest ∧ isBlank d = false ∧
          (d ≠ '?' ∧ d ≠ ':') ∧ isNameChar d = false ∧ isNumberChar d = false := by
        cases tail with
        | nil => exact joined_head more joined_nil next
        | cons d tail =>
            refine ⟨d, tail ++ c :: more, rfl, ?_⟩
            rcases extended with heads | ⟨rest, equal⟩
            · rcases heads d rfl with rfl | rfl | rfl | rfl | rfl | rfl <;> decide
            · exact absurd ⟨word, rest, name, by rw [equal]⟩ plain
      obtain ⟨d, rest, equal, solid, apart, names, numbers⟩ := visible
      have read := readKey_append word (d :: rest) (by simp [isKey, name])
        (by simpa using names) (by simpa using numbers)
      rw [List.append_assoc, equal]
      exact readKeyed_of_word read solid apart

def entryText (entry : ShapeEntry DocType) : Text :=
  keyText entry.key entry.isOptional ++ entry.value.text

theorem isKey_head {key : Text} (fits : isKey key = true) :
    ∃ c more, key = c :: more ∧ c ≠ '.' ∧ c ≠ '\x7d' ∧ isBlank c = false := by
  have opens :
      ∀ s, Opening s → ∃ c more, s = c :: more ∧ c ≠ '.' ∧ c ≠ '\x7d' ∧ isBlank c = false := by
    intro s opening
    obtain ⟨c, more, equal, start, solid⟩ := opening.head
    exact ⟨c, more, equal, ne_of_startsType start (by decide), ne_of_startsType start (by decide),
      solid⟩
  simp only [isKey, Bool.or_eq_true] at fits
  rcases fits with (name | number) | quoted
  · exact opens key (by simpa using Opening.name key [] name (Or.inl (by simp)))
  · obtain ⟨c, more, rfl, digit, -⟩ := (isDigitLed_iff key).mp number
    refine ⟨c, more, rfl, ?_, ?_, isBlank_of_isDigit digit⟩
    · rintro rfl
      exact absurd digit (by decide)
    · rintro rfl
      exact absurd digit (by decide)
  · exact opens key (by simpa using Opening.quoted key [] quoted joined_nil)

theorem entryText_head {entry : ShapeEntry DocType} (fits : EntryFits entry)
    (opening : Opening entry.value.text) :
    ∃ c more, entryText entry = c :: more ∧ c ≠ '.' ∧ c ≠ '\x7d' ∧ isBlank c = false := by
  obtain ⟨key, isOptional, value⟩ := entry
  cases key with
  | none =>
      obtain ⟨c, more, equal, start, solid⟩ := opening.head
      exact ⟨c, more, by simpa [entryText, keyText] using equal, ne_of_startsType start (by decide),
        ne_of_startsType start (by decide), solid⟩
  | some key =>
      obtain ⟨c, more, rfl, apart⟩ := isKey_head fits
      exact ⟨c, _, by rw [entryText, keyText_some]; rfl, apart⟩

theorem shapeEntry_written (entry : ShapeEntry DocType) (allowance depth : Nat) (c : Char)
    (more : Text) (enough : 2 * (entryText entry).length + 1 ≤ allowance)
    (next : c = ',' ∨ c = '\x7d') (fits : EntryFits entry) (opening : Opening entry.value.text)
    (reads : ReadsBack entry.value) :
    shapeEntry (readUnion allowance) ⟨entryText entry ++ c :: more, depth + 1⟩ =
      .ok (some entry, ⟨c :: more, depth + 1⟩) := by
  obtain ⟨d, rest, front, notDot, -, solid⟩ := entryText_head fits opening
  have value := reads allowance (depth + 1) (c :: more)
    (by simp only [entryText, List.length_append] at enough; omega)
    (follows_item _ entry.value '\x7d' c more (by simp) next)
  have start : Text.trimStart (entryText entry ++ c :: more) = entryText entry ++ c :: more := by
    rw [front]
    exact Text.trimStart_cons_solid d _ solid
  have noDots :
      ∀ more', Text.trimStart (entryText entry ++ c :: more) ≠ '.' :: '.' :: '.' :: more' := by
    intro others found
    rw [start, front] at found
    exact notDot (List.cons.inj found).1
  obtain ⟨key, isOptional, type⟩ := entry
  cases key with
  | some key =>
      rw [← readUnion_space] at value
      refine shapeEntry_ok_iff.mpr (.keyed noDots ?_ value)
      dsimp only
      rw [start, entryText, List.append_assoc]
      exact readKeyed_written key isOptional _ fits
  | none =>
      obtain ⟨unmarked, plain⟩ := fits
      cases unmarked
      refine shapeEntry_ok_iff.mpr (.bare noDots ?_ ?_)
      · dsimp only
        rw [start]
        exact readKeyed_bare opening plain c more next
      · dsimp only
        rw [start]
        exact value

theorem readsTerm_shape {base : Text} {entries : List (ShapeEntry DocType)}
    (name : isName base = true) (fits : ∀ entry ∈ entries, EntryFits entry)
    (opens : ∀ entry ∈ entries, Opening entry.value.text)
    (reads : ∀ entry ∈ entries, ReadsBack entry.value) : ReadsTerm (.shape base entries) := by
  intro allowance depth rest enough _ _ _
  rw [text, entryTexts_eq_map] at enough ⊢
  change 2 * (base ++ '\x7b' :: (Text.join [',', ' '] (entries.map entryText) ++ ['\x7d'])).length ≤
    allowance at enough
  simp only [List.length_append, List.length_cons, List.length_nil] at enough
  obtain ⟨n, rfl⟩ := exists_allowance enough (by omega)
  have list := listUntil_bracketed (shapeEntry (readUnion n)) '\x7d' entryText some entries n
    (depth + 1) rest (by decide) (by decide) (by omega)
    (by
      intro entry found
      obtain ⟨c, more, equal, -, notClose, solid⟩ := entryText_head (fits entry found)
        (opens entry found)
      exact ⟨c, more, equal, notClose, solid⟩)
    (by
      intro entry found c more next
      have short := Text.length_le_join [',', ' '] (List.mem_map_of_mem (f := entryText) found)
      exact shapeEntry_written entry n depth c more (by omega) next (fits entry found)
        (opens entry found) (reads entry found))
  have kept : (entries.map some).filterMap id = entries := by simp
  have run : NameRun (readUnion n) (readTerm n) n base depth _ _ _ := .shape list
  rw [kept] at run
  apply readTerm_of_atom
  change atom _ _ _ ⟨base ++ '\x7b' :: (Text.join [',', ' '] (entries.map entryText) ++ ['\x7d']) ++
    rest, depth⟩ = _
  rw [show base ++ '\x7b' :: (Text.join [',', ' '] (entries.map entryText) ++ ['\x7d']) ++ rest =
    base ++ '\x7b' :: (Text.join [',', ' '] (entries.map entryText) ++ '\x7d' :: rest) by simp]
  exact atom_of_name name (by simp; decide) run

theorem parameter_written (type : DocType) (allowance depth : Nat) (c : Char) (more : Text)
    (enough : 2 * type.text.length + 1 ≤ allowance) (next : c = ',' ∨ c = ')')
    (reads : ReadsBack type) :
    parameter (readUnion allowance) ⟨type.text ++ c :: more, depth⟩ =
      .ok (type, ⟨c :: more, depth⟩) := by
  have read :=
    reads allowance depth (c :: more) enough (follows_item depth type ')' c more (by simp) next)
  refine parameter_ok_iff.mpr ⟨_, read, ?_⟩
  rcases next with rfl | rfl <;> rfl

theorem readsTerm_callable {base : Text} {parameters : List DocType} {result : Option DocType}
    (name : isName base = true) (callable : isCallableName base = true)
    (opens : ∀ type ∈ parameters, Opening type.text)
    (reads : ∀ type ∈ parameters, ReadsBack type)
    (returns : ∀ type ∈ result, Opening type.text ∧ ReadsTerm type) :
    ReadsTerm (.callable base parameters result) := by
  intro allowance depth rest enough ends arrays colon
  rw [text, texts_eq_map] at enough ⊢
  simp only [List.length_append, List.length_cons] at enough
  obtain ⟨n, rfl⟩ := exists_allowance enough (by omega)
  have list := listUntil_bracketed (parameter (readUnion n)) ')' text id parameters n (depth + 1)
    (resultText result ++ rest) (by decide) (by decide) (by omega)
    (by
      intro type found
      obtain ⟨c, more, equal, start, solid⟩ := (opens type found).head
      exact ⟨c, more, equal, ne_of_startsType start (by decide), solid⟩)
    (by
      intro type found c more next
      have short := Text.length_le_join [',', ' '] (List.mem_map_of_mem (f := text) found)
      exact parameter_written type n (depth + 1) c more (by omega) next (reads type found))
  rw [List.map_id] at list
  apply readTerm_of_atom
  rw [show
    base ++ '(' :: (Text.join [',', ' '] (parameters.map text) ++ ')' :: resultText result) ++
    rest = base ++ '(' :: (Text.join [',', ' '] (parameters.map text) ++ ')' ::
      (resultText result ++ rest)) by simp]
  refine atom_of_name name (by simp; decide) ?_
  cases result with
  | none =>
      have noColon := colon (.callable base parameters)
      refine .callable callable list fun more (found : behindSeparators depth rest = _) => ?_
      rw [found] at noColon
      exact noColon rfl
  | some type =>
      obtain ⟨opening, term⟩ := returns type rfl
      have noBracket := arrays rfl
      have read := term n depth rest (by simp only [resultText, List.length_cons] at enough; omega)
        ends (fun _ => noBracket) (fun open' => colon (.result base parameters open'))
      rw [wrapArrays_of_head type rest noBracket, ← behindSeparators_opening opening,
        ← behindSeparators_space] at read
      exact .function callable list (behindSeparators_solid depth ':' _ (by decide)) read

/-- A target that does not begin with the word `not` is not taken for a negated one. -/
theorem readName_not {s : Text} (more : Text) (plain : ¬ LedBy "not".toList s) :
    (readName (s ++ ' ' :: more)).1 ≠ "not".toList := by
  intro read
  have whole := readName_split (s ++ ' ' :: more)
  have stop := readName_stops (s ++ ' ' :: more) (by rw [read]; decide)
  rw [read] at whole
  rcases List.append_eq_append_iff.mp whole with ⟨tail, front, rest⟩ | ⟨tail, front, rest⟩
  · refine plain ⟨tail, front, ?_⟩
    rw [rest] at stop
    cases tail with
    | nil => exact stopsAt_nil _
    | cons c tail => exact stop
  · cases tail with
    | nil =>
        refine plain ⟨[], by rw [front, List.append_nil, List.append_nil], stopsAt_nil _⟩
    | cons c tail =>
        have space : ' ' ∈ "not".toList := by
          rw [front, (List.cons.inj rest).1]
          simp
        exact absurd space (by decide)

/-- The text of a condition within its parentheses. -/
theorem conditional_text (subject : Text) (negated : Bool) (target positive negative : DocType)
    (rest : Text) :
    (DocType.conditional subject negated target positive negative).text ++ rest =
      '(' :: (subject ++ ' ' :: 'i' :: 's' :: ' ' :: ((if negated then "not ".toList else []) ++
        (target.text ++ ' ' :: '?' :: ' ' :: (positive.text ++ ' ' :: ':' :: ' ' ::
          (negative.text ++ ')' :: rest))))) := by
  cases negated <;> simp [text]

theorem grouped_conditional {subject target positive negative : DocType} {negated : Bool}
    (plain : negated = false → ¬ LedBy "not".toList target.text)
    (closed : ¬ EndsInParameters positive) (opening : Opening subject.text)
    (targetOpens : Opening target.text) (subjectReads : ReadsBack subject)
    (targetReads : ReadsBack target) (positiveReads : ReadsBack positive)
    (negativeReads : ReadsBack negative) (allowance depth : Nat) (rest : Text)
    (enough : 2 * (subject.text.length + target.text.length + positive.text.length +
      negative.text.length) + 1 ≤ allowance) :
    grouped (readUnion allowance) ⟨subject.text ++ ' ' :: 'i' :: 's' :: ' ' ::
      ((if negated then "not ".toList else []) ++ (target.text ++ ' ' :: '?' :: ' ' ::
        (positive.text ++ ' ' :: ':' :: ' ' :: (negative.text ++ ')' :: rest)))), depth + 1⟩ =
      .ok (.conditional subject.text negated target positive negative, ⟨rest, depth + 1⟩) := by
  let afterTarget := ' ' :: '?' :: ' ' ::
    (positive.text ++ ' ' :: ':' :: ' ' :: (negative.text ++ ')' :: rest))
  let condition := (if negated then "not ".toList else []) ++ (target.text ++ afterTarget)
  have first :=
    subjectReads allowance (depth + 1) (' ' :: 'i' :: 's' :: ' ' :: condition) (by omega)
    (follows_of_space (depth + 1) subject 'i' _ (by decide) (by decide) (fun _ => by decide))
  have second := targetReads allowance (depth + 1) afterTarget (by omega)
    (follows_of_space (depth + 1) target '?' _ (by decide) (by decide) (fun _ => by decide))
  have third := positiveReads allowance (depth + 1)
    (' ' :: ':' :: ' ' :: (negative.text ++ ')' :: rest)) (by omega)
    (follows_of_space (depth + 1) positive ':' _ (by decide) (by decide)
      (fun ends => absurd ends closed))
  have fourth := negativeReads allowance (depth + 1) (')' :: rest) (by omega)
    (follows_of_solid _ negative ')' rest (by decide) (by decide) (by decide))
  have word : readName ('i' :: 's' :: ' ' :: condition) = ("is".toList, ' ' :: condition) := rfl
  have start : Text.trimStart (target.text ++ afterTarget) = target.text ++ afterTarget :=
    trimStart_opening targetOpens afterTarget
  change grouped (readUnion allowance)
    ⟨subject.text ++ ' ' :: 'i' :: 's' :: ' ' :: condition, depth + 1⟩ = _
  rw [grouped]
  simp only [skipBlank_eq, trimStart_opening opening, first, bind_ok, Text.trimStart_space,
    Text.trimStart_cons_solid 'i' _ (by decide : isBlank 'i' = false), word, ↓reduceIte]
  cases negated with
  | true =>
      have mark : readName (Text.trimStart condition) =
          ("not".toList, ' ' :: (target.text ++ afterTarget)) := rfl
      simp only [mark, beq_self_eq_true, ↓reduceIte, readUnion_space, second, bind_ok]
      simp only [afterTarget, expect_space, expect_solid '?' _ _ (by decide : isBlank '?' = false),
        bind_ok, readUnion_space, third, expect_solid ':' _ _ (by decide : isBlank ':' = false),
        fourth, expect_solid ')' _ _ (by decide : isBlank ')' = false)]
      rfl
  | false =>
      have front : Text.trimStart condition = target.text ++ afterTarget := start
      have unmarked : ((readName (target.text ++ afterTarget)).1 == "not".toList) = false := by
        simpa using readName_not _ (plain rfl)
      simp only [front, unmarked, Bool.false_eq_true, ↓reduceIte, second, bind_ok]
      simp only [afterTarget, expect_space, expect_solid '?' _ _ (by decide : isBlank '?' = false),
        bind_ok, readUnion_space, third, expect_solid ':' _ _ (by decide : isBlank ':' = false),
        fourth, expect_solid ')' _ _ (by decide : isBlank ')' = false)]
      rfl

theorem readsTerm_conditional {subject target positive negative : DocType} {negated : Bool}
    (plain : negated = false → ¬ LedBy "not".toList target.text)
    (closed : ¬ EndsInParameters positive) (opening : Opening subject.text)
    (targetOpens : Opening target.text) (subjectReads : ReadsBack subject)
    (targetReads : ReadsBack target) (positiveReads : ReadsBack positive)
    (negativeReads : ReadsBack negative) :
    ReadsTerm (.conditional subject.text negated target positive negative) := by
  intro allowance depth rest enough _ _ _
  have size := congrArg List.length
    (conditional_text subject.text negated target positive negative [])
  simp only [List.append_nil, List.length_append, List.length_cons, List.length_nil] at size
  obtain ⟨n, rfl⟩ := exists_allowance enough (by omega)
  have inner := grouped_conditional plain closed opening targetOpens subjectReads targetReads
    positiveReads negativeReads n depth rest (by omega)
  apply readTerm_of_atom
  rw [conditional_text, atom, atom_cursor depth '(' _ (by decide)]
  simp only [Char.reduceEq, ↓reduceIte, Cursor.enter, inner, bind_ok]
  rfl

end DocSig.DocType
