import DocSig.DocType.Equality
import DocSig.Proofs.DocType.Bracketed
import DocSig.Proofs.DocType.Depth
import DocSig.Proofs.DocType.Locality

/-!
A type that makes up a whole text is the same type within brackets.

The mark that closes the brackets neither goes on with the type nor is part of it, so the type is
read before it as it is on its own (`mirrors_types`), and then one bracket deeper (`deepens_types`).
What is around the type reads its own words and marks and nothing else of the text.
-/

set_option autoImplicit false

namespace DocSig.DocType

variable {t : Text} {type : DocType}

/-- A text whose white space lies all within ASCII, and that is read in full as a type. -/
structure Spells (t : Text) (type : DocType) : Prop where
  narrow : ∀ c ∈ t, isBlank c = true → isAscii c = true
  read : parseType t = .ok (type, [])

namespace Spells

theorem head (spells : Spells t type) :
    ∃ c more, t = c :: more ∧ startsType c = true ∧ isBlank c = false := by
  obtain ⟨c, more, rfl, starts⟩ := parseType_head spells.read
  exact ⟨c, more, rfl, starts, startsType_visible starts (spells.narrow c List.mem_cons_self)⟩

/-- Within brackets, the type is read up to what closes them. -/
theorem inside (spells : Spells t type) {close : Char} (closer : isCloser close = true)
    (bound : Nat) (enough : 2 * t.length + 2 ≤ bound) :
    readUnion bound ⟨t ++ [close], 1⟩ = .ok (type, ⟨[close], 1⟩) := by
  obtain ⟨visible, -⟩ := isCloser_plain closer
  obtain ⟨alone, -⟩ := parseType_ok_iff.mp spells.read
  have alone : readUnion (allowanceFor t) ⟨t ++ [], 0⟩ = .ok (type, ⟨[] ++ [], 0⟩) := by
    rwa [List.append_nil]
  have before := (mirrors_types (still_closer closer []) (allowanceFor t) bound t.length).1 enough
    t [] 0 0 type alone (Or.inr ⟨rfl, rfl⟩) (by simp)
  refine (deepens_types bound).1 _ _ _ before (fun _ c found => ?_) (seen_of_stop ?_)
  · rcases List.mem_append.mp found with inside | last
    · exact spells.narrow c inside
    · intro blank
      rw [List.mem_singleton.mp last, visible] at blank
      cases blank
  · rw [List.nil_append, behindSeparators_solid 0 close [] visible, stopsAt_cons]
    exact visible

end Spells

/-- A text that is one atom is read as that. -/
theorem parseType_of_atom {s : Text}
    (read : atom (readUnion (2 * s.length)) (readTerm (2 * s.length)) (2 * s.length) ⟨s, 0⟩ =
      .ok (type, ⟨[], 0⟩)) : parseType s = .ok (type, []) := by
  refine parseType_ok_iff.mpr ⟨?_, nofun⟩
  have term := readTerm_of_atom read
  rw [allowanceFor, readUnion_succ, alternation, conjunction, term]
  rfl

/-- What begins visibly and is read up to the closing parenthesis is read as what the parentheses
hold. -/
theorem grouped_plain {union : Reader DocType} {s more rest : Text} {c : Char} {depth : Nat}
    {type : DocType} (starts : s = c :: more) (visible : isBlank c = false)
    (read : union ⟨s, depth⟩ = .ok (type, ⟨')' :: rest, depth⟩)) :
    grouped union ⟨s, depth⟩ = .ok (type, ⟨rest, depth⟩) := by
  have front : s.trimStart = s := by
    rw [starts]
    exact Text.trimStart_cons_solid c more visible
  rw [← front] at read
  refine grouped_ok_iff.mpr (.plain read ?_ (expect_solid ')' rest depth (by decide)))
  rw [Text.trimStart_cons_solid ')' rest (by decide)]
  simp [readName, isNameStart, isAscii]

theorem parseType_parenthesized (spells : Spells t type) :
    parseType ('(' :: (t ++ [')'])) = .ok (type, []) := by
  obtain ⟨c, more, starts, -, visible⟩ := spells.head
  have inner := spells.inside (show isCloser ')' = true from rfl) (2 * ('(' :: (t ++ [')'])).length)
    (by simp only [List.length_cons, List.length_append, List.length_nil]; omega)
  have front : t ++ [')'] = c :: (more ++ [')']) := by
    rw [starts]
    rfl
  apply parseType_of_atom
  exact atom_ok_iff.mpr (.group (grouped_plain front visible inner))

/-- A list of one item that begins with something visible. -/
theorem listUntil_single {α : Type} {item : Reader α} {close c : Char} {s more : Text} {x : α}
    (closer : isCloser close = true) (noComma : close ≠ ',') (allowance depth : Nat)
    (positive : 0 < allowance) (starts : s = c :: more) (visible : isBlank c = false)
    (other : c ≠ close) (read : item ⟨s, depth⟩ = .ok (x, ⟨[close], depth⟩)) :
    listUntil item close allowance ⟨s, depth⟩ = .ok ([x], ⟨[], depth⟩) := by
  obtain ⟨less, rfl⟩ := Nat.exists_eq_succ_of_ne_zero (Nat.ne_of_gt positive)
  have front : s.trimStart = s := by
    rw [starts]
    exact Text.trimStart_cons_solid c more visible
  refine listUntil_last item close less depth s [] x (isCloser_plain closer).1 noComma ?_ ?_
  · rw [front, starts]
    exact fun same => other (Option.some.inj same)
  · rw [front]
    exact read

/-- A text does not begin with the mark of a variant argument, a word and white space behind it. -/
def Invariant (t : Text) : Prop :=
  ∀ word c rest, t = word ++ c :: rest → isVariance word = true → isBlank c = false

theorem no_variance (invariant : Invariant t) {close : Char} (visible : isBlank close = false) :
    ¬ (isVariance (readName (t ++ [close])).1 &&
      (readName (t ++ [close])).2.head?.any isBlank) = true := by
  intro variance
  have whole := readName_split (t ++ [close])
  obtain ⟨mark, behind⟩ := Bool.and_eq_true_iff.mp variance
  obtain ⟨c, found, blank⟩ := (Option.any_eq_true _ _).mp behind
  obtain ⟨rest, starts⟩ := List.head?_eq_some_iff.mp found
  rw [starts] at whole
  rcases List.eq_nil_or_concat rest with rfl | ⟨init, last, rfl⟩
  · -- the white space would be what closes the argument
    obtain ⟨-, same⟩ := List.append_inj' whole rfl
    rw [(List.cons.inj same).1, visible] at blank
    cases blank
  · rw [List.concat_eq_append, ← List.cons_append, ← List.append_assoc] at whole
    obtain ⟨same, -⟩ := List.append_inj' whole rfl
    rw [invariant _ c init same.symm mark] at blank
    cases blank

theorem typeArgument_inside (spells : Spells t type) (invariant : Invariant t) (bound : Nat)
    (enough : 2 * t.length + 2 ≤ bound) :
    typeArgument (readUnion bound) ⟨t ++ ['>'], 1⟩ = .ok (type, ⟨['>'], 1⟩) := by
  obtain ⟨c, more, starts, kind, visible⟩ := spells.head
  have front : Text.trimStart (t ++ ['>']) = t ++ ['>'] := by
    rw [starts]
    exact Text.trimStart_cons_solid c _ visible
  refine typeArgument_ok_iff.mpr (.type (fun rest star => ?_) ?_)
  · dsimp only at star
    rw [front, starts] at star
    obtain ⟨rfl, -⟩ := List.cons.inj star
    cases kind
  · dsimp only
    rw [front, behindVariance, if_neg (no_variance invariant (by decide))]
    exact spells.inside rfl bound enough

theorem parameter_inside (spells : Spells t type) (bound : Nat)
    (enough : 2 * t.length + 2 ≤ bound) :
    parameter (readUnion bound) ⟨t ++ [')'], 1⟩ = .ok (type, ⟨[')'], 1⟩) :=
  parameter_ok_iff.mpr ⟨_, spells.inside rfl bound enough, rfl⟩

theorem isWord_iff (s : Text) : isWord s = true ↔
    ∃ c more, s = c :: more ∧ isNameStart c = true ∧ ∀ d ∈ more, isNameChar d = true := by
  cases s <;> simp [isWord]

theorem readKeyed_word {key : Text} (word : isWord key = true) (rest : Text) :
    readKeyed (key ++ ':' :: rest) = some (key, false, rest) := by
  obtain ⟨c, more, rfl, start, run⟩ := (isWord_iff key).mp word
  obtain ⟨notDigit, -, -, -, notSingle, notDouble⟩ := isNameStart_plain start
  have stop : StopsAt isNameChar (':' :: rest) := by
    rw [stopsAt_cons]
    decide
  have read : readKey (c :: more ++ ':' :: rest) = some (c :: more, ':' :: rest) := by
    simp only [List.cons_append, readKey, notSingle, notDouble, or_self, notDigit, start, readName,
      Bool.false_eq_true, ↓reduceIte, takeWhile_word isNameChar more _ run stop,
      dropWhile_word isNameChar more _ run stop]
  simp only [readKeyed, read, Text.trimStart_cons_solid ':' rest (by decide)]

theorem shapeEntry_inside (spells : Spells t type) {key : Text} (word : isWord key = true)
    (ascii : ∀ c ∈ key, isAscii c = true) (bound : Nat) (enough : 2 * t.length + 2 ≤ bound) :
    shapeEntry (readUnion bound) ⟨key ++ ':' :: ' ' :: (t ++ ['\x7d']), 1⟩ =
      .ok (some ⟨some key, false, type⟩, ⟨['\x7d'], 1⟩) := by
  obtain ⟨c, more, starts, start, -⟩ := (isWord_iff key).mp word
  have visible : isBlank c = false :=
    word_visible c (Or.inl start) (ascii c (starts ▸ List.mem_cons_self))
  have front : Text.trimStart (key ++ ':' :: ' ' :: (t ++ ['\x7d'])) =
      key ++ ':' :: ' ' :: (t ++ ['\x7d']) := by
    rw [starts]
    exact Text.trimStart_cons_solid c _ visible
  have value : readUnion bound ⟨' ' :: (t ++ ['\x7d']), 1⟩ = .ok (type, ⟨['\x7d'], 1⟩) := by
    rw [readUnion_space]
    exact spells.inside rfl bound enough
  refine shapeEntry_ok_iff.mpr (.keyed (fun rest dots => ?_) ?_ value)
  · dsimp only at dots
    rw [front, starts] at dots
    obtain ⟨rfl, -⟩ := List.cons.inj dots
    cases start
  · dsimp only
    rw [front]
    exact readKeyed_word word _

section Bracketed

variable {base : Text}

/-- What is within brackets leaves some of the allowance for what is around it. -/
theorem enough_within (base front t : Text) (opening closing : Char) :
    2 * t.length + 2 ≤ 2 * (base ++ opening :: (front ++ (t ++ [closing]))).length := by
  simp only [List.length_append, List.length_cons, List.length_nil]
  omega

theorem parseType_argument (spells : Spells t type) (invariant : Invariant t)
    (name : isName base = true) :
    parseType (base ++ '<' :: (t ++ ['>'])) = .ok (.generic base [type], []) := by
  obtain ⟨c, more, starts, kind, visible⟩ := spells.head
  have enough := enough_within base [] t '<' '>'
  rw [List.nil_append] at enough
  apply parseType_of_atom
  generalize 2 * (base ++ '<' :: (t ++ ['>'])).length = bound at enough
  have list := listUntil_single rfl (by decide) bound 1 (by omega)
    (show t ++ ['>'] = c :: (more ++ ['>']) by rw [starts]; rfl) visible
    (ne_of_startsType kind (by decide)) (typeArgument_inside spells invariant bound enough)
  exact atom_of_name name (by simp; decide) (.generic list (List.cons_ne_nil type []))

theorem parseType_entry (spells : Spells t type) {key : Text} (word : isWord key = true)
    (ascii : ∀ c ∈ key, isAscii c = true) (name : isName base = true) :
    parseType (base ++ '\x7b' :: (key ++ ':' :: ' ' :: (t ++ ['\x7d']))) =
      .ok (.shape base [⟨some key, false, type⟩], []) := by
  obtain ⟨c, more, starts, start, -⟩ := (isWord_iff key).mp word
  have visible : isBlank c = false :=
    word_visible c (Or.inl start) (ascii c (starts ▸ List.mem_cons_self))
  have enough := enough_within base (key ++ [':', ' ']) t '\x7b' '\x7d'
  rw [List.append_assoc] at enough
  apply parseType_of_atom
  change 2 * t.length + 2 ≤ 2 * (base ++ '\x7b' :: (key ++ ':' :: ' ' :: (t ++ ['\x7d']))).length
    at enough
  generalize 2 * (base ++ '\x7b' :: (key ++ ':' :: ' ' :: (t ++ ['\x7d']))).length = bound at enough
  have list := listUntil_single rfl (by decide) bound 1 (by omega)
    (show key ++ ':' :: ' ' :: (t ++ ['\x7d']) = c :: (more ++ ':' :: ' ' :: (t ++ ['\x7d'])) by
      rw [starts]; rfl) visible
    (by rintro rfl; cases start) (shapeEntry_inside spells word ascii bound enough)
  exact atom_of_name name (by simp; decide) (.shape list)

theorem parseType_parameter (spells : Spells t type) (name : isName base = true)
    (callable : isCallableName base = true) :
    parseType (base ++ '(' :: (t ++ [')'])) = .ok (.callable base [type] none, []) := by
  obtain ⟨c, more, starts, kind, visible⟩ := spells.head
  have enough := enough_within base [] t '(' ')'
  rw [List.nil_append] at enough
  apply parseType_of_atom
  generalize 2 * (base ++ '(' :: (t ++ [')'])).length = bound at enough
  have list := listUntil_single rfl (by decide) bound 1 (by omega)
    (show t ++ [')'] = c :: (more ++ [')']) by rw [starts]; rfl) visible
    (ne_of_startsType kind (by decide)) (parameter_inside spells bound enough)
  exact atom_of_name name (by simp; decide) (.callable callable list nofun)

end Bracketed

/-- A text without white space outside of ASCII that is a type in full is that type again within
brackets: in parentheses, as the value of a shape's entry under any name of ASCII, as a parameter,
and as an argument, unless a mark of a variant argument begins it. -/
theorem parseType_enclosed (narrow : ∀ c ∈ t, isBlank c = true → isAscii c = true)
    (read : parseType t = .ok (type, [])) :
    parseType ('(' :: (t ++ [')'])) = .ok (type, []) ∧
      (∀ key, isWord key = true → (∀ c ∈ key, isAscii c = true) →
        parseType ("array\x7b".toList ++ (key ++ ": ".toList ++ t ++ "\x7d".toList)) =
          .ok (.shape "array".toList [⟨some key, false, type⟩], [])) ∧
      parseType ("callable(".toList ++ (t ++ ")".toList)) =
        .ok (.callable "callable".toList [type] none, []) ∧
      (Invariant t →
        parseType ("array<".toList ++ (t ++ ">".toList)) =
          .ok (.generic "array".toList [type], [])) := by
  have spells : Spells t type := ⟨narrow, read⟩
  have shape : "array\x7b".toList = "array".toList ++ ['\x7b'] := rfl
  have callable : "callable(".toList = "callable".toList ++ ['('] := rfl
  have generic : "array<".toList = "array".toList ++ ['<'] := rfl
  refine ⟨parseType_parenthesized spells, fun key word ascii => ?_, ?_, fun invariant => ?_⟩
  · have entry := parseType_entry spells word ascii (show isName "array".toList = true by decide)
    rw [shape, List.append_assoc, List.append_assoc, List.append_assoc]
    exact entry
  · rw [callable, List.append_assoc]
    exact parseType_parameter spells (by decide) (by decide)
  · rw [generic, List.append_assoc]
    exact parseType_argument spells invariant (by decide)

/-- A type with separators around its mark and a result at its end. -/
def unitedType : DocType :=
  .union [.nullable (.name "A".toList),
    .callable "callable".toList [.name "B".toList] (some (.name "C".toList))]

theorem parseType_enclosedUnion :
    parseType "(?A | callable(B): C)".toList = .ok (unitedType, []) ∧
      parseType "array\x7b$id: ?A | callable(B): C\x7d".toList =
        .ok (.shape "array".toList [⟨some "$id".toList, false, unitedType⟩], []) ∧
      parseType "callable(?A | callable(B): C)".toList =
        .ok (.callable "callable".toList [unitedType] none, []) ∧
      parseType "array<?A | callable(B): C>".toList =
        .ok (.generic "array".toList [unitedType], []) := by
  have read : parseType "?A | callable(B): C".toList = .ok (unitedType, []) := by decide +kernel
  have narrow : ∀ c ∈ "?A | callable(B): C".toList, isBlank c = true → isAscii c = true :=
    forall_of_all (by decide)
  obtain ⟨group, shape, callable, generic⟩ := parseType_enclosed narrow read
  refine ⟨group, shape "$id".toList (by decide) (forall_of_all (by decide)), callable, generic ?_⟩
  intro word c rest whole variance
  cases word with
  | nil => cases variance
  | cons first more =>
      obtain rfl := (List.cons.inj whole).1
      cases variance

end DocSig.DocType
