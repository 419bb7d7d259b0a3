import DocSig.Proofs.DocType.Nesting

/-!
A type as an entry of a shape, without a key.

An entry is tried as a key with its mark before it is read as a type. Behind its first word a whole
type goes on with brackets, `[]`, `|` or `&`, or with nothing (`GoesOn`), none of which marks a key;
only the first colon of a constant does. So a type is an entry of its own exactly if no constant
begins it (`parseType_bareEntry`).
-/

set_option autoImplicit false

namespace DocSig.DocType

variable {s t : Text} {type : DocType} {here there : Cursor}

/-- What is left goes on with `[]`, `|` or `&` behind white space, or with nothing. -/
def GoesOn (s : Text) : Prop := Joined s.trimStart

theorem goesOn_nil : GoesOn [] := joined_nil

theorem goesOn_of_mark {depth : Nat} {c : Char} {more : Text}
    (mark : behindSeparators depth s = c :: more) (kind : c = '[' ∨ c = '|' ∨ c = '&') :
    GoesOn s := by
  have visible : isBlank c = false := by rcases kind with rfl | rfl | rfl <;> decide
  rw [GoesOn, ← trimStart_behindSeparators depth, mark, Text.trimStart_cons_solid c more visible]
  exact joined_cons more kind

theorem goesOn_moreAlternatives {member : Reader DocType} {allowance : Nat} {types : List DocType}
    (read : moreAlternatives member allowance here = .ok (types, there))
    (ends : GoesOn there.rest) :
    GoesOn here.rest := by
  cases allowance with
  | zero => cases read
  | succ allowance =>
      cases moreAlternatives_ok_iff.mp read with
      | joined mark some first next => exact goesOn_of_mark mark (Or.inr (Or.inl rfl))
      | ends stop => exact ends

theorem goesOn_moreConjuncts {member : Reader DocType} {allowance : Nat} {types : List DocType}
    (read : moreConjuncts member allowance here = .ok (types, there)) (ends : GoesOn there.rest) :
    GoesOn here.rest := by
  cases allowance with
  | zero => cases read
  | succ allowance =>
      cases moreConjuncts_ok_iff.mp read with
      | joined mark goesOn first next => exact goesOn_of_mark mark (Or.inr (Or.inr rfl))
      | ends stop => exact ends

theorem goesOn_wrapArrays {found : DocType} {rest : Text}
    (read : wrapArrays type s = (found, rest)) (ends : GoesOn rest) : GoesOn s := by
  unfold wrapArrays at read
  split at read
  · exact joined_cons _ (Or.inl rfl)
  · cases read
    exact ends

/-- A whole type begins with an atom, behind which it goes on. -/
theorem exists_firstAtom (read : parseType t = .ok (type, [])) :
    ∃ inner middle, AtomRun (readUnion (2 * t.length)) (readTerm (2 * t.length)) (2 * t.length) 0 t
      inner middle ∧ GoesOn middle.rest := by
  obtain ⟨union, -⟩ := parseType_ok_iff.mp read
  rw [allowanceFor, readUnion_succ] at union
  obtain ⟨⟨_, second⟩, conjunct, alternatives⟩ := bind_eq_ok.mp union
  obtain ⟨⟨_, last⟩, moreTypes, final⟩ := bind_eq_ok.mp alternatives
  cases final
  obtain ⟨⟨_, first⟩, term, conjuncts⟩ := bind_eq_ok.mp conjunct
  obtain ⟨⟨_, last⟩, moreMembers, final⟩ := bind_eq_ok.mp conjuncts
  cases final
  rw [readTerm_succ] at term
  obtain ⟨inner, middle, head, brackets, -⟩ := arrayed_ok_iff.mp term
  refine ⟨inner, middle, atom_ok_iff.mp head, goesOn_wrapArrays brackets ?_⟩
  exact goesOn_moreConjuncts moreMembers (goesOn_moreAlternatives moreTypes goesOn_nil)

/-- A word is no key if neither mark of a key is behind it. -/
theorem readKeyed_of_behind {word behind : Text} (read : readKey s = some (word, behind))
    (noMark : ∀ c ∈ behind.trimStart.head?, c ≠ '?' ∧ c ≠ ':') : readKeyed s = none := by
  simp only [readKeyed, read]
  split
  · next found => exact absurd rfl (noMark '?' (by rw [found]; rfl)).1
  · next found => exact absurd rfl (noMark ':' (by rw [found]; rfl)).2
  · rfl

/-- What closes a shape comes behind a type that has ended. -/
theorem GoesOn.unmarked (goesOn : GoesOn s) :
    ∀ c ∈ (Text.trimStart (s ++ ['\x7d'])).head?, c ≠ '?' ∧ c ≠ ':' := by
  intro c found
  rw [Text.trimStart, List.dropWhile_append] at found
  split at found
  · cases found
    decide
  · next some =>
      rw [List.head?_append_of_ne_nil _ (by simpa using some)] at found
      rcases goesOn c found with rfl | rfl | rfl <;> decide

theorem stopsAt_closing {class? : Char → Bool} (outside : class? '\x7d' = false) :
    StopsAt class? ['\x7d'] :=
  (stopsAt_cons class? '\x7d' []).mpr outside

theorem keyless_quoted {c : Char} {body rest : Text} (quote : c = '\'' ∨ c = '"')
    (read : Text.readQuoted c s = some (body, rest)) (goesOn : GoesOn rest) :
    readKeyed (c :: s ++ ['\x7d']) = none := by
  have plain : c ≠ '\\' := by rcases quote with rfl | rfl <;> decide
  have read : Text.readQuoted c (s ++ []) = some (body, rest ++ []) := by simpa using read
  have again := readQuoted_swap (v := ['\x7d']) plain read
  have key : readKey (c :: s ++ ['\x7d']) = some (c :: body, rest ++ ['\x7d']) := by
    rw [List.cons_append, readKey, if_pos quote, again]
    rfl
  exact readKeyed_of_behind key goesOn.unmarked

theorem keyless_number (starts : startsNumber s = true) (goesOn : GoesOn (readNumber s).2) :
    readKeyed (s ++ ['\x7d']) = none := by
  obtain ⟨c, more, rfl, -, -, noQuote⟩ := startsNumber_head starts
  by_cases sign : c = '-'
  · subst sign
    rfl
  · have digit : c.isDigit = true := by
      unfold startsNumber at starts
      split at starts
      · next same => exact absurd (List.cons.inj same).1 sign
      · next same => exact (List.cons.inj same).1 ▸ starts
      · cases starts
    have again : readNumber (c :: more ++ ['\x7d']) =
        ((readNumber (c :: more)).1, (readNumber (c :: more)).2 ++ ['\x7d']) :=
      readNumber_swap (u := []) (by simp) (List.cons_ne_nil c more)
        fun _ => stopsAt_closing (by decide)
    have key : readKey (c :: more ++ ['\x7d']) = some (readNumber (c :: more ++ ['\x7d'])) := by
      rw [List.cons_append, readKey, if_neg noQuote, if_pos digit]
    rw [again] at key
    exact readKeyed_of_behind key goesOn.unmarked

/-- A name that something goes on with, other than the word of a constant, is no key. -/
theorem NameRun.goesOn {union term : Reader DocType} {allowance depth : Nat} {base : Text}
    (run : NameRun union term allowance base depth s type there) (goesOn : GoesOn there.rest)
    (noConstant : ∀ more, s ≠ ':' :: ':' :: more) :
    ∀ c ∈ (Text.trimStart (s ++ ['\x7d'])).head?, c ≠ '?' ∧ c ≠ ':' := by
  have marked : ∀ {mark : Char} {more : Text}, isBlank mark = false → mark ≠ '?' ∧ mark ≠ ':' →
      ∀ c ∈ (Text.trimStart (mark :: more ++ ['\x7d'])).head?, c ≠ '?' ∧ c ≠ ':' := by
    intro mark more visible other c found
    rw [List.cons_append, Text.trimStart_cons_solid mark _ visible] at found
    cases found
    exact other
  cases run with
  | constant some => exact absurd rfl (noConstant _)
  | generic list some => exact marked (by decide) (by decide)
  | shape list => exact marked (by decide) (by decide)
  | function callable list colon read => exact marked (by decide) (by decide)
  | callable callable list noColon => exact marked (by decide) (by decide)
  | name noConstant noGeneric noShape noCall => exact goesOn.unmarked

theorem keyless_name {c : Char} (start : isNameStart c = true) (noMark : ∀ d ∈ (Text.trimStart
      ((readName (c :: s)).2 ++ ['\x7d'])).head?, d ≠ '?' ∧ d ≠ ':') :
    readKeyed (c :: s ++ ['\x7d']) = none := by
  obtain ⟨noDigit, -, -, -, noSingle, noDouble⟩ := isNameStart_plain start
  have again : readName (c :: s ++ ['\x7d']) =
      ((readName (c :: s)).1, (readName (c :: s)).2 ++ ['\x7d']) :=
    readName_swap (u := []) (by simp) (List.cons_ne_nil c s) fun _ => stopsAt_closing (by decide)
  have key : readKey (c :: s ++ ['\x7d']) = some (readName (c :: s ++ ['\x7d'])) := by
    rw [List.cons_append, readKey, if_neg (not_or.mpr ⟨noSingle, noDouble⟩), noDigit,
      if_neg Bool.false_ne_true, if_pos start]
  rw [again] at key
  exact readKeyed_of_behind key noMark

/-- The name before `::` at the start of a text without white space outside of ASCII. -/
theorem ledByConstant_of_readName {c : Char} {more : Text}
    (narrow : ∀ d ∈ c :: s, isBlank d = true → isAscii d = true) (start : isNameStart c = true)
    (complete : (readName (c :: s)).1.getLast? ≠ some '\\')
    (colons : (readName (c :: s)).2 = ':' :: ':' :: more) : LedByConstant (c :: s) := by
  have split := readName_split (c :: s)
  refine ⟨(readName (c :: s)).1, more, ?_, by rw [← colons, split]⟩
  have word := isWord_readName s start
  obtain ⟨d, others, same, first, later⟩ := (isWord_iff _).mp word
  refine (isName_iff _).mpr ⟨d, others, same, first, later, complete, fun e found => ?_⟩
  have inside : e ∈ c :: s := split ▸ List.mem_append_left _ found
  have kind : isNameStart e = true ∨ isNameChar e = true := by
    rw [same] at found
    rcases List.mem_cons.mp found with rfl | behind
    · exact Or.inl first
    · exact Or.inr (later e behind)
  by_contra blank
  have blank : isBlank e = true := by simpa using blank
  have visible := word_visible e (kind.imp_right Or.inl) (narrow e inside blank)
  rw [visible] at blank
  cases blank

/-- A whole type that no constant begins is not taken for a key with its value. -/
theorem Spells.readKeyed_none (spells : Spells t type) (plain : ¬ LedByConstant t) :
    readKeyed (t ++ ['\x7d']) = none := by
  obtain ⟨inner, middle, run, goesOn⟩ := exists_firstAtom spells.read
  have narrow := spells.narrow
  generalize 2 * t.length = allowance at run
  cases run with
  | nullable read => rfl
  | group read => rfl
  | quoted quote read => exact keyless_quoted quote read goesOn
  | number starts => exact keyless_number starts goesOn
  | name start read =>
      obtain ⟨complete, behind⟩ := named_ok_iff.mp read
      refine keyless_name start (behind.goesOn goesOn fun more colons => plain ?_)
      exact ledByConstant_of_readName narrow start complete colons

theorem shapeEntry_bare (spells : Spells t type) (plain : ¬ LedByConstant t) (bound : Nat)
    (enough : 2 * t.length + 2 ≤ bound) :
    shapeEntry (readUnion bound) ⟨t ++ ['\x7d'], 1⟩ =
      .ok (some ⟨none, false, type⟩, ⟨['\x7d'], 1⟩) := by
  obtain ⟨c, more, starts, kind, visible⟩ := spells.head
  have front : Text.trimStart (t ++ ['\x7d']) = t ++ ['\x7d'] := by
    rw [starts]
    exact Text.trimStart_cons_solid c _ visible
  refine shapeEntry_ok_iff.mpr (.bare (fun rest dots => ?_) ?_ ?_)
  · dsimp only at dots
    rw [front, starts] at dots
    obtain ⟨rfl, -⟩ := List.cons.inj dots
    cases kind
  · dsimp only
    rw [front]
    exact spells.readKeyed_none plain
  · dsimp only
    rw [front]
    exact spells.inside rfl bound enough

theorem parseType_keyless (spells : Spells t type) (plain : ¬ LedByConstant t) {base : Text}
    (name : isName base = true) :
    parseType (base ++ '\x7b' :: (t ++ ['\x7d'])) =
      .ok (.shape base [⟨none, false, type⟩], []) := by
  obtain ⟨c, more, starts, kind, visible⟩ := spells.head
  have enough := enough_within base [] t '\x7b' '\x7d'
  rw [List.nil_append] at enough
  apply parseType_of_atom
  generalize 2 * (base ++ '\x7b' :: (t ++ ['\x7d'])).length = bound at enough
  have list := listUntil_single rfl (by decide) bound 1 (by omega)
    (show t ++ ['\x7d'] = c :: (more ++ ['\x7d']) by rw [starts]; rfl) visible
    (ne_of_startsType kind (by decide)) (shapeEntry_bare spells plain bound enough)
  exact atom_of_name name (by simp; decide) (.shape list)

theorem readUnion_error_of_atom {bound : Nat} {fault : TypeFault}
    (failed : atom (readUnion bound) (readTerm bound) bound here = .error fault) :
    readUnion (bound + 2) here = .error fault := by
  have term : readTerm (bound + 1) here = .error fault := by
    rw [readTerm_succ, arrayed, failed]
    rfl
  rw [readUnion_succ, alternation, conjunction, term]
  rfl

theorem parseType_error_of_atom {fault : TypeFault}
    (failed : atom (readUnion (2 * s.length)) (readTerm (2 * s.length)) (2 * s.length) ⟨s, 0⟩ =
      .error fault) : parseType s = .error fault := by
  rw [parseType, allowanceFor, readUnion_error_of_atom failed]
  rfl

/-- Where no type starts, the reader of types says so. -/
theorem readUnion_unexpected {c : Char} (other : startsType c = false) (visible : isBlank c = false)
    (bound depth : Nat) (more : Text) :
    readUnion (bound + 2) ⟨c :: more, depth⟩ = .error (.unexpected c) := by
  simp only [startsType, Bool.or_eq_false_iff, beq_eq_false_iff_ne] at other
  obtain ⟨⟨⟨⟨⟨⟨noMark, noBracket⟩, noSingle⟩, noDouble⟩, noSign⟩, noDigit⟩, noName⟩ := other
  have noNumber : startsNumber (c :: more) = false := by
    unfold startsNumber
    split
    · next same => exact absurd (List.cons.inj same).1 noSign
    · next same => exact (List.cons.inj same).1 ▸ noDigit
    · rfl
  apply readUnion_error_of_atom
  rw [atom, atom_cursor depth c more visible]
  dsimp only
  rw [if_neg noMark, if_neg noBracket, if_neg (not_or.mpr ⟨noSingle, noDouble⟩), noNumber,
    if_neg Bool.false_ne_true, noName, if_neg Bool.false_ne_true]

/-- The fault of the first entry of a shape is that of the shape. -/
theorem atom_of_entry_error {union term : Reader DocType} {fault : TypeFault} {base : Text}
    (name : isName base = true) {c : Char} {more : Text} (visible : isBlank c = false)
    (other : c ≠ '\x7d') (allowance depth : Nat) (positive : 0 < allowance)
    (failed : shapeEntry union ⟨c :: more, depth + 1⟩ = .error fault) :
    atom union term allowance ⟨base ++ '\x7b' :: c :: more, depth⟩ = .error fault := by
  obtain ⟨less, rfl⟩ := Nat.exists_eq_succ_of_ne_zero (Nat.ne_of_gt positive)
  have stop : StopsAt isNameChar ('\x7b' :: c :: more) := by simp; decide
  obtain ⟨-, -, -, -, -, complete, -⟩ := (isName_iff base).mp name
  have list : listUntil (shapeEntry union) '\x7d' (less + 1) ⟨c :: more, depth + 1⟩ =
      .error fault := by
    rw [listUntil, skipBlank_eq, Text.trimStart_cons_solid c more visible, failed,
      if_neg (by simpa using other)]
    rfl
  rw [atom_name _ _ _ _ base _ name, named, readName_append base _ name stop]
  dsimp only
  rw [if_neg complete]
  change (listUntil (shapeEntry union) '\x7d' (less + 1) ⟨c :: more, depth + 1⟩ >>= _) = _
  rw [list]
  rfl

/-- The first colon of a constant is taken for the mark of a key, and no type starts with the
second one. -/
theorem shapeEntry_constant {word : Text} (name : isName word = true) (bound depth : Nat)
    (rest : Text) :
    shapeEntry (readUnion (bound + 2)) ⟨word ++ ':' :: ':' :: rest, depth⟩ =
      .error (.unexpected ':') := by
  obtain ⟨c, more, rfl, start, later, -, solid⟩ := (isName_iff word).mp name
  have front : Text.trimStart (c :: more ++ ':' :: ':' :: rest) = c :: more ++ ':' :: ':' :: rest :=
    Text.trimStart_cons_solid c _ (solid c List.mem_cons_self)
  have keyed := readKeyed_word ((isWord_iff _).mpr ⟨c, more, rfl, start, later⟩) (':' :: rest)
  rw [shapeEntry, front]
  split
  · next dots =>
      obtain ⟨rfl, -⟩ := List.cons.inj dots
      cases start
  · dsimp only
    rw [keyed]
    dsimp only
    rw [readUnion_unexpected (by decide) (by decide)]
    rfl

theorem parseType_keyless_constant (led : LedByConstant t) {base : Text}
    (name : isName base = true) :
    parseType (base ++ '\x7b' :: (t ++ ['\x7d'])) = .error (.unexpected ':') := by
  obtain ⟨word, rest, isName, rfl⟩ := led
  obtain ⟨c, more, rfl, start, -, -, solid⟩ := (isName_iff word).mp isName
  have whole : (c :: more ++ ':' :: ':' :: rest) ++ ['\x7d'] =
      c :: (more ++ ':' :: ':' :: (rest ++ ['\x7d'])) := by simp
  apply parseType_error_of_atom
  rw [whole]
  obtain ⟨bound, enough⟩ : ∃ bound,
      2 * (base ++ '\x7b' :: c :: (more ++ ':' :: ':' :: (rest ++ ['\x7d']))).length = bound + 2 :=
    ⟨2 * (base ++ more ++ ':' :: ':' :: (rest ++ ['\x7d'])).length + 2, by
      simp only [List.length_append, List.length_cons]; omega⟩
  rw [enough]
  exact atom_of_entry_error name (solid c List.mem_cons_self) (by rintro rfl; cases start) _ 0
    (Nat.succ_pos _) (shapeEntry_constant isName bound 1 (rest ++ ['\x7d']))

/-- A text without white space outside of ASCII that is a type in full is an entry without a key,
unless it begins with a constant; then the shape is refused for the second colon of that. -/
theorem parseType_bareEntry (narrow : ∀ c ∈ t, isBlank c = true → isAscii c = true)
    (read : parseType t = .ok (type, [])) :
    parseType ("array\x7b".toList ++ (t ++ "\x7d".toList)) =
      if LedByConstant t then .error (.unexpected ':')
      else .ok (.shape "array".toList [⟨none, false, type⟩], []) := by
  have shape : "array\x7b".toList = "array".toList ++ ['\x7b'] := rfl
  have name : isName "array".toList = true := by decide
  rw [shape, List.append_assoc]
  split
  · next led => exact parseType_keyless_constant led name
  · next plain => exact parseType_keyless ⟨narrow, read⟩ plain name

/-- A type that begins like a key: a quoted string that holds a colon, and a number behind it. -/
theorem parseType_quotedEntry :
    parseType "array\x7b'id: ' | 1 | A[]\x7d".toList =
        .ok (.shape "array".toList [⟨none, false, .union [.literal "'id: '".toList,
          .literal "1".toList, .array (.name "A".toList)]⟩], []) ∧
      parseType "array\x7bA::B|C\x7d".toList = .error (.unexpected ':') := by
  have quoted := parseType_bareEntry (t := "'id: ' | 1 | A[]".toList)
    (forall_of_all (by decide)) (show parseType _ = .ok (.union [.literal "'id: '".toList,
      .literal "1".toList, .array (.name "A".toList)], []) by decide +kernel)
  have constant := parseType_bareEntry (t := "A::B|C".toList) (forall_of_all (by decide))
    (show parseType _ = .ok (.union [.literal "A::B".toList, .name "C".toList], []) by
      decide +kernel)
  rw [if_neg (by decide)] at quoted
  rw [if_pos (by decide)] at constant
  exact ⟨quoted, constant⟩

/-- A constant is a type, and it is refused as an entry. -/
theorem parseType_constantEntry :
    parseType "Foo::BAR".toList = .ok (.literal "Foo::BAR".toList, []) ∧
      parseType "array\x7bFoo::BAR\x7d".toList ≠
        .ok (.shape "array".toList [⟨none, false, .literal "Foo::BAR".toList⟩], []) := by
  have fails : (parseType "array\x7bFoo::BAR\x7d".toList).toOption.isNone = true := by
    decide +kernel
  refine ⟨by decide +kernel, fun read => ?_⟩
  rw [read] at fails
  cases fails

end DocSig.DocType
