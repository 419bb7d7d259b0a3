import DocSig.Proofs.DocType.Readers

/-!
What a run of a reader that succeeds has done.

For each reader there is a relation with a case for each way in which it succeeds: which mark was
found, what the readers of the parts read, and what was not there. A run succeeds exactly if one of
these cases holds, so that whatever is proved of runs is proved by their cases, and a run is shown
to succeed by naming its case.
-/

set_option autoImplicit false

namespace DocSig.DocType

variable {α : Type} {here there : Cursor}

theorem bind_eq_ok {ε α β : Type} {x : Except ε α} {next : α → Except ε β} {y : β} :
    (x >>= next) = .ok y ↔ ∃ a, x = .ok a ∧ next a = .ok y := by
  cases x with
  | error fault => simp [bind, Except.bind]
  | ok a => simp [bind, Except.bind]

/-- A mark is read exactly if it comes first behind white space. -/
theorem expect_ok_iff {wanted : Char} : expect wanted here = .ok there ↔
    here.rest.trimStart = wanted :: there.rest ∧ there.depth = here.depth := by
  obtain ⟨rest, depth⟩ := there
  unfold expect
  cases here.rest.trimStart with
  | nil => exact iff_of_false nofun fun found => nomatch found.1
  | cons c more =>
      dsimp only
      by_cases same : c = wanted
      · subst same
        simp [eq_comm]
      · rw [if_neg same]
        exact iff_of_false nofun fun found => same (List.cons.inj found.1).1

theorem expect_of_mark {wanted : Char} {rest : Text}
    (mark : here.rest.trimStart = wanted :: rest) : expect wanted here = .ok ⟨rest, here.depth⟩ :=
  expect_ok_iff.mpr ⟨mark, rfl⟩

/-- The members of a union behind its first one: one more behind its mark and then the others, or
none. -/
inductive AlternativesRun (member : Reader DocType) (others : Reader (List DocType))
    (here : Cursor) : List DocType → Cursor → Prop
  | joined {rest : Text} {type : DocType} {types : List DocType} {middle there : Cursor}
      (mark : behindSeparators here.depth here.rest = '|' :: rest)
      (some : behindSeparators here.depth rest ≠ [])
      (first : member ⟨behindSeparators here.depth rest, here.depth⟩ = .ok (type, middle))
      (next : others middle = .ok (types, there)) :
      AlternativesRun member others here (type :: types) there
  | ends (stop : ∀ rest, behindSeparators here.depth here.rest ≠ '|' :: rest) :
      AlternativesRun member others here [] here

theorem moreAlternatives_ok_iff {member : Reader DocType} {allowance : Nat}
    {types : List DocType} :
    moreAlternatives member (allowance + 1) here = .ok (types, there) ↔
      AlternativesRun member (moreAlternatives member allowance) here types there := by
  obtain ⟨rest, depth⟩ := here
  simp only [moreAlternatives, skipSeparators_eq]
  constructor
  · intro read
    split at read
    · next more mark =>
        split at read
        · cases read
        · next some =>
            obtain ⟨⟨type, middle⟩, first, next⟩ := bind_eq_ok.mp read
            obtain ⟨⟨types, last⟩, others, final⟩ := bind_eq_ok.mp next
            cases final
            exact .joined mark (by simpa using some) first others
    · next stop =>
        cases read
        exact .ends stop
  · rintro (⟨mark, some, first, next⟩ | stop)
    · dsimp only at mark some first
      simp only [mark, first, next, bind_ok]
      rw [if_neg (by simpa using some)]
      rfl
    · split
      · next more mark => exact absurd mark (stop more)
      · rfl

/-- The members of an intersection behind its first one. It ends before an `&` that passes a
variable by reference. -/
inductive ConjunctsRun (member : Reader DocType) (others : Reader (List DocType))
    (here : Cursor) : List DocType → Cursor → Prop
  | joined {rest : Text} {type : DocType} {types : List DocType} {middle there : Cursor}
      (mark : behindSeparators here.depth here.rest = '&' :: rest)
      (goesOn : startsVariable (behindSeparators here.depth rest) = false)
      (first : member ⟨behindSeparators here.depth rest, here.depth⟩ = .ok (type, middle))
      (next : others middle = .ok (types, there)) :
      ConjunctsRun member others here (type :: types) there
  | ends (stop : ∀ rest, behindSeparators here.depth here.rest = '&' :: rest →
        startsVariable (behindSeparators here.depth rest) = true) :
      ConjunctsRun member others here [] here

theorem moreConjuncts_ok_iff {member : Reader DocType} {allowance : Nat} {types : List DocType} :
    moreConjuncts member (allowance + 1) here = .ok (types, there) ↔
      ConjunctsRun member (moreConjuncts member allowance) here types there := by
  obtain ⟨rest, depth⟩ := here
  simp only [moreConjuncts, skipSeparators_eq]
  constructor
  · intro read
    split at read
    · next more mark =>
        split at read
        · next byReference =>
            cases read
            refine .ends fun other same => ?_
            rw [mark] at same
            cases same
            exact byReference
        · next goesOn =>
            obtain ⟨⟨type, middle⟩, first, next⟩ := bind_eq_ok.mp read
            obtain ⟨⟨types, last⟩, others, final⟩ := bind_eq_ok.mp next
            cases final
            exact .joined mark (by simpa using goesOn) first others
    · next stop =>
        cases read
        exact .ends fun more mark => absurd mark (stop more)
  · rintro (⟨mark, goesOn, first, next⟩ | stop)
    · dsimp only at mark goesOn first
      simp only [mark, goesOn, first, next, bind_ok, Bool.false_eq_true, ↓reduceIte]
      rfl
    · split
      · next more mark => rw [if_pos (stop more mark)]
      · rfl

/-- The items of a list: none before the mark that closes it, one before a comma and then the
others, or the last one. -/
inductive ListRun (item : Reader α) (close : Char) (others : Reader (List α)) (here : Cursor) :
    List α → Cursor → Prop
  | closed {rest : Text} (mark : here.rest.trimStart = close :: rest) :
      ListRun item close others here [] ⟨rest, here.depth⟩
  | more {rest : Text} {x : α} {xs : List α} {middle there : Cursor}
      (goesOn : here.rest.trimStart.head? ≠ some close)
      (first : item ⟨here.rest.trimStart, here.depth⟩ = .ok (x, middle))
      (comma : middle.rest.trimStart = ',' :: rest)
      (next : others ⟨rest, middle.depth⟩ = .ok (xs, there)) :
      ListRun item close others here (x :: xs) there
  | last {x : α} {middle there : Cursor} (goesOn : here.rest.trimStart.head? ≠ some close)
      (first : item ⟨here.rest.trimStart, here.depth⟩ = .ok (x, middle))
      (noComma : close ≠ ',') (ended : expect close middle = .ok there) :
      ListRun item close others here [x] there

theorem listUntil_ok_iff {item : Reader α} {close : Char} {allowance : Nat} {xs : List α} :
    listUntil item close (allowance + 1) here = .ok (xs, there) ↔
      ListRun item close (listUntil item close allowance) here xs there := by
  obtain ⟨rest, depth⟩ := here
  rw [listUntil]
  constructor
  · intro read
    split at read
    · next closed =>
        cases read
        exact .closed (List.eq_cons_of_mem_head? closed)
    · next goesOn =>
        obtain ⟨⟨x, middle⟩, first, next⟩ := bind_eq_ok.mp read
        dsimp only at next
        split at next
        · next more comma =>
            obtain ⟨⟨others, last⟩, found, final⟩ := bind_eq_ok.mp next
            cases final
            exact .more goesOn first comma found
        · next noComma =>
            obtain ⟨last, ended, final⟩ := bind_eq_ok.mp next
            cases final
            refine .last goesOn first ?_ ended
            rintro rfl
            exact noComma _ (expect_ok_iff.mp ended).1
  · rintro (mark | ⟨goesOn, first, comma, next⟩ | ⟨goesOn, first, noComma, ended⟩)
    · dsimp only at mark
      rw [mark]
      exact if_pos rfl
    · rw [if_neg goesOn, skipBlank_eq, first, bind_ok]
      simp only [comma, next, bind_ok]
      rfl
    · rw [if_neg goesOn, skipBlank_eq, first, bind_ok]
      dsimp only
      split
      · next more comma =>
          exact absurd (List.cons.inj ((expect_ok_iff.mp ended).1.symm.trans comma)).1 noComma
      · exact bind_eq_ok.mpr ⟨_, ended, rfl⟩

/-- Where the second type of a condition is looked for: behind a `not`. -/
def behindNot (s : Text) : Text := if (readName s).1 = "not".toList then (readName s).2 else s

/-- What parentheses hold: a type, or a condition about one. -/
inductive GroupRun (union : Reader DocType) (here : Cursor) : DocType → Cursor → Prop
  | plain {type : DocType} {middle there : Cursor}
      (first : union ⟨here.rest.trimStart, here.depth⟩ = .ok (type, middle))
      (noWord : (readName middle.rest.trimStart).1 ≠ "is".toList)
      (close : expect ')' middle = .ok there) : GroupRun union here type there
  | condition {subject target positive negative : DocType}
      {middle second third fourth fifth sixth there : Cursor} {rest : Text}
      (first : union ⟨here.rest.trimStart, here.depth⟩ = .ok (subject, middle))
      (word : readName middle.rest.trimStart = ("is".toList, rest))
      (two : union ⟨behindNot rest.trimStart, middle.depth⟩ = .ok (target, second))
      (mark : expect '?' second = .ok third) (three : union third = .ok (positive, fourth))
      (colon : expect ':' fourth = .ok fifth) (four : union fifth = .ok (negative, sixth))
      (close : expect ')' sixth = .ok there) :
      GroupRun union here (.conditional subject.text
        ((readName rest.trimStart).1 == "not".toList) target positive negative) there

theorem grouped_ok_iff {union : Reader DocType} {type : DocType} :
    grouped union here = .ok (type, there) ↔ GroupRun union here type there := by
  constructor
  · intro read
    obtain ⟨⟨first, middle⟩, one, next⟩ := bind_eq_ok.mp read
    dsimp only at next
    split at next
    · next word =>
        obtain ⟨⟨target, second⟩, two, next⟩ := bind_eq_ok.mp next
        obtain ⟨third, mark, next⟩ := bind_eq_ok.mp next
        obtain ⟨⟨positive, fourth⟩, three, next⟩ := bind_eq_ok.mp next
        obtain ⟨fifth, colon, next⟩ := bind_eq_ok.mp next
        obtain ⟨⟨negative, sixth⟩, four, next⟩ := bind_eq_ok.mp next
        obtain ⟨last, close, final⟩ := bind_eq_ok.mp next
        cases final
        simp only [beq_iff_eq] at two
        exact .condition one (Prod.ext word rfl) two mark three colon four close
    · next noWord =>
        obtain ⟨last, close, final⟩ := bind_eq_ok.mp next
        cases final
        exact .plain one noWord close
  · rintro (⟨one, noWord, close⟩ | ⟨one, word, two, mark, three, colon, four, close⟩)
    · refine bind_eq_ok.mpr ⟨_, one, (if_neg noWord).trans ?_⟩
      exact bind_eq_ok.mpr ⟨_, close, rfl⟩
    · refine bind_eq_ok.mpr ⟨_, one, ?_⟩
      simp only [word, ↓reduceIte, beq_iff_eq]
      refine bind_eq_ok.mpr ⟨_, two, bind_eq_ok.mpr ⟨_, mark, bind_eq_ok.mpr ⟨_, three, ?_⟩⟩⟩
      exact bind_eq_ok.mpr ⟨_, colon, bind_eq_ok.mpr ⟨_, four, bind_eq_ok.mpr ⟨_, close, rfl⟩⟩⟩

/-- Where the type of an argument is looked for: behind the mark of a variant one. -/
def behindVariance (s : Text) : Text :=
  if isVariance (readName s).1 && (readName s).2.head?.any isBlank then (readName s).2.trimStart
  else s

/-- One argument of a generic type: the star, or a type. -/
inductive ArgumentRun (union : Reader DocType) (here : Cursor) : DocType → Cursor → Prop
  | star {rest : Text} (mark : here.rest.trimStart = '*' :: rest) :
      ArgumentRun union here (.name ['*']) ⟨rest, here.depth⟩
  | type {type : DocType} {there : Cursor} (noStar : ∀ rest, here.rest.trimStart ≠ '*' :: rest)
      (read : union ⟨behindVariance here.rest.trimStart, here.depth⟩ = .ok (type, there)) :
      ArgumentRun union here type there

theorem typeArgument_ok_iff {union : Reader DocType} {type : DocType} :
    typeArgument union here = .ok (type, there) ↔ ArgumentRun union here type there := by
  rw [typeArgument]
  constructor
  · intro read
    split at read
    · next rest mark =>
        cases read
        exact .star mark
    · next noStar =>
        refine .type noStar ?_
        rw [behindVariance]
        dsimp only at read
        split at read
        · next variance => rwa [if_pos variance]
        · next plain => rwa [if_neg plain]
  · rintro (mark | ⟨noStar, read⟩)
    · simp only [mark]
    · split
      · next rest mark => exact absurd mark (noStar rest)
      · rw [behindVariance] at read
        dsimp only
        split
        · next variance => rwa [if_pos variance] at read
        · next plain => rwa [if_neg plain] at read

/-- One entry of a shape: the mark of an open one, a type with its key, or a type alone. -/
inductive EntryRun (union : Reader DocType) (here : Cursor) :
    Option (ShapeEntry DocType) → Cursor → Prop
  | dots {rest : Text} (mark : here.rest.trimStart = '.' :: '.' :: '.' :: rest) :
      EntryRun union here none ⟨rest, here.depth⟩
  | keyed {key rest : Text} {isOptional : Bool} {value : DocType} {there : Cursor}
      (noDots : ∀ rest, here.rest.trimStart ≠ '.' :: '.' :: '.' :: rest)
      (found : readKeyed here.rest.trimStart = some (key, isOptional, rest))
      (read : union ⟨rest, here.depth⟩ = .ok (value, there)) :
      EntryRun union here (some ⟨some key, isOptional, value⟩) there
  | bare {value : DocType} {there : Cursor}
      (noDots : ∀ rest, here.rest.trimStart ≠ '.' :: '.' :: '.' :: rest)
      (noKey : readKeyed here.rest.trimStart = none)
      (read : union ⟨here.rest.trimStart, here.depth⟩ = .ok (value, there)) :
      EntryRun union here (some ⟨none, false, value⟩) there

theorem shapeEntry_ok_iff {union : Reader DocType} {entry : Option (ShapeEntry DocType)} :
    shapeEntry union here = .ok (entry, there) ↔ EntryRun union here entry there := by
  rw [shapeEntry]
  constructor
  · intro read
    split at read
    · next rest dots =>
        cases read
        exact .dots dots
    · next noDots =>
        dsimp only at read
        split at read
        · next key isOptional rest found =>
            obtain ⟨⟨value, last⟩, one, final⟩ := bind_eq_ok.mp read
            cases final
            exact .keyed noDots found one
        · next noKey =>
            obtain ⟨⟨value, last⟩, one, final⟩ := bind_eq_ok.mp read
            cases final
            exact .bare noDots noKey one
  · rintro (dots | ⟨noDots, found, read⟩ | ⟨noDots, noKey, read⟩)
    · simp only [dots]
    · split
      · next rest dots => exact absurd dots (noDots rest)
      · simp only [found]
        exact bind_eq_ok.mpr ⟨_, read, rfl⟩
    · split
      · next rest dots => exact absurd dots (noDots rest)
      · simp only [noKey]
        exact bind_eq_ok.mpr ⟨_, read, rfl⟩

/-- What is left behind the type of a parameter: the marks and the variable are passed over. -/
def behindParameter (s : Text) : Text :=
  (skipVariable
    ((s.trimStart.dropOptional ['&']).dropOptional ['.', '.', '.'])).trimStart.dropOptional
    ['=']

theorem parameter_ok_iff {union : Reader DocType} {type : DocType} :
    parameter union here = .ok (type, there) ↔
      ∃ middle, union here = .ok (type, middle) ∧
        there = ⟨behindParameter middle.rest, middle.depth⟩ := by
  constructor
  · intro read
    obtain ⟨⟨type, middle⟩, one, final⟩ := bind_eq_ok.mp read
    cases final
    exact ⟨middle, one, rfl⟩
  · rintro ⟨middle, one, rfl⟩
    exact bind_eq_ok.mpr ⟨_, one, rfl⟩

/-- What goes on with a name: nothing, the word of a constant, or a list in brackets. -/
inductive NameRun (union term : Reader DocType) (allowance : Nat) (base : Text) (depth : Nat) :
    Text → DocType → Cursor → Prop
  | constant {more : Text} (some : more.takeWhile isConstantChar ≠ []) :
      NameRun union term allowance base depth (':' :: ':' :: more)
        (.literal (base ++ ':' :: ':' :: more.takeWhile isConstantChar))
        ⟨more.dropWhile isConstantChar, depth⟩
  | generic {more : Text} {arguments : List DocType} {last : Cursor}
      (list : listUntil (typeArgument union) '>' allowance ⟨more, depth + 1⟩ =
        .ok (arguments, last))
      (some : arguments ≠ []) :
      NameRun union term allowance base depth ('<' :: more) (.generic base arguments) last.leave
  | shape {more : Text} {entries : List (Option (ShapeEntry DocType))} {last : Cursor}
      (list : listUntil (shapeEntry union) '\x7d' allowance ⟨more, depth + 1⟩ =
        .ok (entries, last)) :
      NameRun union term allowance base depth ('\x7b' :: more)
        (.shape base (entries.filterMap id)) last.leave
  | function {more rest : Text} {parameters : List DocType} {result : DocType}
      {last there : Cursor} (callable : isCallableName base = true)
      (list : listUntil (parameter union) ')' allowance ⟨more, depth + 1⟩ = .ok (parameters, last))
      (colon : behindSeparators last.leave.depth last.leave.rest = ':' :: rest)
      (read : term ⟨behindSeparators last.leave.depth rest, last.leave.depth⟩ =
        .ok (result, there)) :
      NameRun union term allowance base depth ('(' :: more)
        (.callable base parameters (some result)) there
  | callable {more : Text} {parameters : List DocType} {last : Cursor}
      (callable : isCallableName base = true)
      (list : listUntil (parameter union) ')' allowance ⟨more, depth + 1⟩ = .ok (parameters, last))
      (noColon : ∀ rest, behindSeparators last.leave.depth last.leave.rest ≠ ':' :: rest) :
      NameRun union term allowance base depth ('(' :: more) (.callable base parameters none)
        last.leave
  | name {rest : Text} (noConstant : ∀ more, rest ≠ ':' :: ':' :: more)
      (noGeneric : ∀ more, rest ≠ '<' :: more) (noShape : ∀ more, rest ≠ '\x7b' :: more)
      (noCall : ∀ more, rest = '(' :: more → isCallableName base = false) :
      NameRun union term allowance base depth rest (.name base) ⟨rest, depth⟩

theorem named_ok_iff {union term : Reader DocType} {allowance : Nat} {type : DocType} :
    named union term allowance here = .ok (type, there) ↔
      (readName here.rest).1.getLast? ≠ some '\\' ∧
        NameRun union term allowance (readName here.rest).1 here.depth (readName here.rest).2
          type there := by
  rw [named]
  dsimp only
  generalize readName here.rest = word
  obtain ⟨base, rest⟩ := word
  dsimp only
  constructor
  · intro read
    split at read
    · cases read
    · next complete =>
        refine ⟨complete, ?_⟩
        split at read
        · next more =>
            split at read
            · cases read
            · next some =>
                cases read
                exact .constant (by simpa using some)
        · next more =>
            obtain ⟨⟨arguments, last⟩, list, next⟩ := bind_eq_ok.mp read
            dsimp only at next
            split at next
            · cases next
            · next some =>
                cases next
                exact .generic list (by simpa using some)
        · next more =>
            obtain ⟨⟨entries, last⟩, list, final⟩ := bind_eq_ok.mp read
            cases final
            exact .shape list
        · next more =>
            split at read
            · next callable =>
                obtain ⟨⟨parameters, last⟩, list, next⟩ := bind_eq_ok.mp read
                dsimp only at next
                split at next
                · next rest colon =>
                    obtain ⟨⟨result, final⟩, one, finish⟩ := bind_eq_ok.mp next
                    cases finish
                    rw [skipSeparators_eq] at one
                    exact .function callable list colon one
                · next noColon =>
                    cases next
                    exact .callable callable list noColon
            · next plain =>
                cases read
                exact .name nofun nofun nofun fun _ _ => by simpa using plain
        · next noConstant noGeneric noShape noCall =>
            cases read
            exact .name noConstant noGeneric noShape fun more same => absurd same (noCall more)
  · rintro ⟨complete, run⟩
    rw [if_neg complete]
    cases run with
    | constant some => exact if_neg (by simpa using some)
    | generic list some =>
        exact bind_eq_ok.mpr ⟨_, list, if_neg (by simpa using some)⟩
    | shape list => exact bind_eq_ok.mpr ⟨_, list, rfl⟩
    | function callable list colon read =>
        refine (if_pos callable).trans (bind_eq_ok.mpr ⟨_, list, ?_⟩)
        dsimp only
        split
        · next rest found =>
            obtain rfl := (List.cons.inj (colon.symm.trans found)).2
            rw [skipSeparators_eq]
            exact bind_eq_ok.mpr ⟨_, read, rfl⟩
        · next noColon => exact absurd colon (noColon _)
    | callable callable list noColon =>
        refine (if_pos callable).trans (bind_eq_ok.mpr ⟨_, list, ?_⟩)
        dsimp only
        split
        · next rest colon => exact absurd colon (noColon rest)
        · rfl
    | name noConstant noGeneric noShape noCall =>
        split
        · next more => exact absurd rfl (noConstant more)
        · next more => exact absurd rfl (noGeneric more)
        · next more => exact absurd rfl (noShape more)
        · next more => rw [if_neg (by simp [noCall more rfl])]
        · rfl

/-- A type that no operator joins, by its first character. -/
inductive AtomRun (union term : Reader DocType) (allowance depth : Nat) :
    Text → DocType → Cursor → Prop
  | nullable {rest : Text} {inner : DocType} {there : Cursor}
      (read : term ⟨rest, depth⟩ = .ok (inner, there)) :
      AtomRun union term allowance depth ('?' :: rest) (.nullable inner) there
  | group {rest : Text} {inner : DocType} {last : Cursor}
      (read : grouped union ⟨rest, depth + 1⟩ = .ok (inner, last)) :
      AtomRun union term allowance depth ('(' :: rest) inner last.leave
  | quoted {c : Char} {s body rest : Text} (quote : c = '\'' ∨ c = '"')
      (read : Text.readQuoted c s = some (body, rest)) :
      AtomRun union term allowance depth (c :: s) (.literal (c :: body)) ⟨rest, depth⟩
  | number {s : Text} (starts : startsNumber s = true) :
      AtomRun union term allowance depth s (.literal (readNumber s).1) ⟨(readNumber s).2, depth⟩
  | name {c : Char} {s : Text} {type : DocType} {there : Cursor} (start : isNameStart c = true)
      (read : named union term allowance ⟨c :: s, depth⟩ = .ok (type, there)) :
      AtomRun union term allowance depth (c :: s) type there

/-- Where an atom starts: within brackets behind the white space, and outside of them at once. -/
def atomStart (here : Cursor) : Text := if 0 < here.depth then here.rest.trimStart else here.rest

theorem startsNumber_of_isNameStart {c : Char} (start : isNameStart c = true) (s : Text) :
    startsNumber (c :: s) = false := by
  obtain ⟨noDigit, noSign, -⟩ := isNameStart_plain start
  unfold startsNumber
  split
  · next same => exact absurd (List.cons.inj same).1 noSign
  · next same =>
      rw [← (List.cons.inj same).1]
      exact noDigit
  · rfl

/-- A number starts with a character that no other type starts with. -/
theorem startsNumber_head {s : Text} (starts : startsNumber s = true) :
    ∃ c more, s = c :: more ∧ c ≠ '?' ∧ c ≠ '(' ∧ ¬ (c = '\'' ∨ c = '"') := by
  unfold startsNumber at starts
  split at starts
  · exact ⟨'-', _, rfl, by decide, by decide, by decide⟩
  · next c more _ =>
      refine ⟨c, more, rfl, ?_, ?_, ?_⟩
      · rintro rfl
        cases starts
      · rintro rfl
        cases starts
      · rintro (rfl | rfl) <;> cases starts
  · cases starts

theorem AtomRun.head {union term : Reader DocType} {allowance depth : Nat} {s : Text}
    {type : DocType} (run : AtomRun union term allowance depth s type there) :
    ∃ c more, s = c :: more ∧ startsType c = true := by
  cases run with
  | nullable read => exact ⟨'?', _, rfl, rfl⟩
  | group read => exact ⟨'(', _, rfl, rfl⟩
  | quoted quote read => exact ⟨_, _, rfl, by rcases quote with rfl | rfl <;> rfl⟩
  | name start read => exact ⟨_, _, rfl, by simp [startsType, start]⟩
  | number starts =>
      unfold startsNumber at starts
      split at starts
      · exact ⟨'-', _, rfl, rfl⟩
      · exact ⟨_, _, rfl, by simp [startsType, starts]⟩
      · cases starts

theorem atom_ok_iff {union term : Reader DocType} {allowance : Nat} {type : DocType} :
    atom union term allowance here = .ok (type, there) ↔
      AtomRun union term allowance here.depth (atomStart here) type there := by
  have start :
      (if 0 < here.depth then here.skipBlank else here) = ⟨atomStart here, here.depth⟩ := by
    unfold atomStart
    split <;> rfl
  rw [atom, start]
  dsimp only
  generalize atomStart here = s
  constructor
  · intro read
    split at read
    · cases read
    · next c rest =>
        split at read
        · next mark =>
            subst mark
            obtain ⟨⟨inner, last⟩, one, final⟩ := bind_eq_ok.mp read
            cases final
            exact .nullable one
        · split at read
          · next bracket =>
              subst bracket
              obtain ⟨⟨inner, last⟩, one, final⟩ := bind_eq_ok.mp read
              cases final
              exact .group one
          · split at read
            · next quote =>
                split at read
                · cases read
                · next body rest found =>
                    cases read
                    exact .quoted quote found
            · split at read
              · next number =>
                  cases read
                  exact .number number
              · split at read
                · next start => exact .name start read
                · cases read
  · intro run
    cases run with
    | nullable read => exact bind_eq_ok.mpr ⟨_, read, rfl⟩
    | group read => exact bind_eq_ok.mpr ⟨_, read, rfl⟩
    | @quoted c s body rest quote read =>
        have other : c ≠ '?' ∧ c ≠ '(' := by rcases quote with rfl | rfl <;> decide
        dsimp only
        rw [if_neg other.1, if_neg other.2, if_pos quote, read]
    | number starts =>
        obtain ⟨c, more, rfl, noMark, noBracket, noQuote⟩ := startsNumber_head starts
        dsimp only
        rw [if_neg noMark, if_neg noBracket, if_neg noQuote, if_pos starts]
    | @name c s type there start read =>
        obtain ⟨-, -, noMark, noBracket, noSingle, noDouble⟩ := isNameStart_plain start
        dsimp only
        rw [if_neg noMark, if_neg noBracket, if_neg (not_or.mpr ⟨noSingle, noDouble⟩),
          startsNumber_of_isNameStart start, if_neg Bool.false_ne_true, if_pos start]
        exact read

theorem arrayed_ok_iff {atom : Reader DocType} {type : DocType} :
    arrayed atom here = .ok (type, there) ↔
      ∃ inner middle, atom here = .ok (inner, middle) ∧
        wrapArrays inner middle.rest = (type, there.rest) ∧ there.depth = middle.depth := by
  constructor
  · intro read
    obtain ⟨⟨inner, middle⟩, one, final⟩ := bind_eq_ok.mp read
    cases final
    exact ⟨inner, middle, one, rfl, rfl⟩
  · rintro ⟨inner, middle, one, wrapped, same⟩
    refine bind_eq_ok.mpr ⟨_, one, ?_⟩
    obtain ⟨rest, depth⟩ := there
    cases same
    dsimp only
    rw [wrapped]
    rfl

end DocSig.DocType
