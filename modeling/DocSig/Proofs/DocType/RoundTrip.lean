import DocSig.Proofs.DocType.Bracketed

/-!
Printing a type and reading the text gives the type back.

The induction is over the printable types. Members of a union or an intersection are read back
as terms, in parentheses where they stand in them, and the chain of them is read by
`moreAlternatives` or `moreConjuncts`.
-/

set_option autoImplicit false

namespace DocSig.DocType

/-- What the induction carries: a type is read back, and as a term unless it needs parentheses
for that. -/
structure Reads (type : DocType) : Prop where
  term : type.isCompound = false → ReadsTerm type
  back : ReadsBack type

theorem conjunction_single {allowance depth : Nat} {s rest : Text} {type : DocType}
    (positive : 0 < allowance)
    (read : readTerm allowance ⟨s, depth⟩ = .ok (type, ⟨rest, depth⟩))
    (done : ∀ more, behindSeparators depth rest = '&' :: more →
      startsVariable (behindSeparators depth more) = true) :
    conjunction (readTerm allowance) allowance ⟨s, depth⟩ = .ok (type, ⟨rest, depth⟩) := by
  have none := moreConjuncts_written (readTerm allowance) [] allowance depth rest positive
    (by simp) (by simp) (by simp) (by simp) done
  rw [List.flatMap_nil, List.nil_append] at none
  simp only [conjunction, read, bind_ok, none]
  rfl

theorem alternation_single {allowance depth : Nat} {s rest : Text} {type : DocType}
    (positive : 0 < allowance)
    (read : conjunction (readTerm allowance) allowance ⟨s, depth⟩ = .ok (type, ⟨rest, depth⟩))
    (done : (behindSeparators depth rest).head? ≠ some '|') :
    readUnion (allowance + 1) ⟨s, depth⟩ = .ok (type, ⟨rest, depth⟩) := by
  have none := moreAlternatives_written (conjunction (readTerm allowance) allowance) [] allowance
    depth rest positive (by simp) (by simp) (by simp) done
  rw [List.flatMap_nil, List.nil_append] at none
  simp only [readUnion_succ, alternation, read, bind_ok, none]
  rfl

/-- A type outside of `|` and `&` is read back once it is read as a term. -/
theorem Reads.of_term {type : DocType} (term : ReadsTerm type) (opening : Opening type.text) :
    Reads type := by
  refine ⟨fun _ => term, ?_⟩
  intro allowance depth rest enough follows
  have positive := opening.length_pos
  obtain ⟨n, rfl⟩ := exists_allowance enough (by omega)
  have noBracket := not_bracket_of_follower follows.word
  have read := term n depth rest (by omega) follows.endsWord (fun _ => noBracket) follows.result
  rw [wrapArrays_of_head type rest noBracket] at read
  exact alternation_single (by omega) (conjunction_single (by omega) read follows.conjunct)
    follows.alternative

/-- What a member of a union is followed by. -/
theorem conjunction_member {type : DocType} (reads : Reads type) (opening : Opening type.text)
    (allowance depth : Nat) (rest : Text) (enough : 2 * type.memberText.length ≤ allowance)
    (word : ∀ c ∈ rest.head?, isFollower c = true)
    (result : type.isCompound = false → EndsInParameters type →
      (behindSeparators depth rest).head? ≠ some ':')
    (done : ∀ more, behindSeparators depth rest = '&' :: more →
      startsVariable (behindSeparators depth more) = true) :
    conjunction (readTerm allowance) allowance ⟨type.memberText ++ rest, depth⟩ =
      .ok (type, ⟨rest, depth⟩) := by
  have positive := (opening_memberText opening).length_pos
  exact conjunction_single (by omega)
    (readTerm_member reads.term reads.back opening allowance depth rest enough word result) done

theorem conjunction_before_bar {type : DocType} (reads : Reads type) (opening : Opening type.text)
    (allowance depth : Nat) (more : Text) (enough : 2 * type.memberText.length ≤ allowance) :
    conjunction (readTerm allowance) allowance ⟨type.memberText ++ '|' :: more, depth⟩ =
      .ok (type, ⟨'|' :: more, depth⟩) := by
  have stays := behindSeparators_solid depth '|' more (by decide)
  apply conjunction_member reads opening allowance depth _ enough
  · intro c equal
    cases equal
    decide
  · intro _ _
    rw [stays]
    simp
  · rw [stays]
    intro _ equal
    cases equal

theorem readTerm_before_ampersand {type : DocType} (reads : Reads type)
    (opening : Opening type.text) (allowance depth : Nat) (more : Text)
    (enough : 2 * type.memberText.length ≤ allowance) :
    readTerm allowance ⟨type.memberText ++ '&' :: more, depth⟩ =
      .ok (type, ⟨'&' :: more, depth⟩) := by
  apply readTerm_member reads.term reads.back opening allowance depth _ enough
  · intro c equal
    cases equal
    decide
  · intro _ _
    rw [behindSeparators_solid depth '&' more (by decide)]
    simp

/-- The length of a chain of members, and of each of them. -/
theorem chain_bounds (separator : Char) (first : DocType) (others : List DocType) :
    first.memberText.length + others.length ≤
        (first.memberText ++ others.flatMap fun type => separator :: type.memberText).length ∧
      ∀ type ∈ others, type.memberText.length + 1 ≤
        (first.memberText ++ others.flatMap fun type => separator :: type.memberText).length := by
  have count : others.length ≤
      (others.flatMap fun type => separator :: type.memberText).length := by
    induction others with
    | nil => simp
    | cons other others ih =>
        simp only [List.flatMap_cons, List.length_append, List.length_cons]
        omega
  rw [List.length_append]
  refine ⟨by omega, ?_⟩
  intro type found
  obtain ⟨before, after, rfl⟩ := List.append_of_mem found
  simp only [List.flatMap_append, List.flatMap_cons, List.length_append, List.length_cons]
  omega

theorem readsBack_union {members : List DocType} (many : 2 ≤ members.length)
    (flat : ∀ type ∈ members, ∀ inner, type ≠ .union inner)
    (opens : ∀ type ∈ members, Opening type.text) (reads : ∀ type ∈ members, Reads type) :
    ReadsBack (.union members) := by
  intro allowance depth rest enough follows
  match members, many with
  | first :: second :: others, _ =>
      have bounds := chain_bounds '|' first (second :: others)
      have present : 0 < (second :: others).length := by simp
      rw [union_text] at enough ⊢
      obtain ⟨n, rfl⟩ := exists_allowance enough (by omega)
      have head := conjunction_before_bar (reads first (by simp)) (opens first (by simp)) n depth
        ((second.memberText ++ others.flatMap fun type => '|' :: type.memberText) ++ rest)
          (by omega)
      have final : ∀ type, (second :: others).getLast? = some type →
          conjunction (readTerm n) n ⟨type.memberText ++ rest, depth⟩ =
            .ok (type, ⟨rest, depth⟩) := by
        intro type last
        have found : type ∈ second :: others := List.mem_of_getLast? last
        have among : type ∈ first :: second :: others := List.mem_cons_of_mem _ found
        have small := bounds.2 type found
        apply conjunction_member (reads type among) (opens type among) n depth rest (by omega)
          follows.word
        · intro simple ends
          apply follows.result
          rw [← List.dropLast_append_getLast? type last, ← List.cons_append]
          exact .union _ simple ends
        · exact follows.conjunct
      have tail := moreAlternatives_written (conjunction (readTerm n) n) (second :: others) n depth
        rest (by omega)
        (fun type found => opening_memberText (opens type (List.mem_cons_of_mem _ found)))
        (fun type found more => conjunction_before_bar (reads type (List.mem_cons_of_mem _ found))
          (opens type (List.mem_cons_of_mem _ found)) n depth more
          (by have := bounds.2 type found; omega))
        final follows.alternative
      have flattened : (first :: second :: others).flatMap alternatives =
          first :: second :: others := by
        have each : ∀ type ∈ first :: second :: others, alternatives type = [type] := by
          intro type found
          cases type with
          | union inner => exact absurd rfl (flat _ found inner)
          | _ => rfl
        rw [List.flatMap_congr each]
        simp
      simp only [List.flatMap_cons, List.cons_append, List.append_assoc] at head tail ⊢
      simp only [readUnion_succ, alternation, head, bind_ok, tail, unionOf, flattened]
      rfl

theorem readsBack_intersection {members : List DocType} (many : 2 ≤ members.length)
    (plain : ∀ type ∈ members.tail, type.memberText.head? ≠ some '$')
    (opens : ∀ type ∈ members, Opening type.text) (reads : ∀ type ∈ members, Reads type) :
    ReadsBack (.intersection members) := by
  intro allowance depth rest enough follows
  match members, many with
  | first :: second :: others, _ =>
      have bounds := chain_bounds '&' first (second :: others)
      have present : 0 < (second :: others).length := by simp
      rw [intersection_text] at enough ⊢
      obtain ⟨n, rfl⟩ := exists_allowance enough (by omega)
      have head := readTerm_before_ampersand (reads first (by simp)) (opens first (by simp)) n depth
        ((second.memberText ++ others.flatMap fun type => '&' :: type.memberText) ++ rest)
          (by omega)
      have final : ∀ type, (second :: others).getLast? = some type →
          readTerm n ⟨type.memberText ++ rest, depth⟩ = .ok (type, ⟨rest, depth⟩) := by
        intro type last
        have found : type ∈ second :: others := List.mem_of_getLast? last
        have among : type ∈ first :: second :: others := List.mem_cons_of_mem _ found
        have small := bounds.2 type found
        apply readTerm_member (reads type among).term (reads type among).back (opens type among) n
          depth rest (by omega) follows.word
        intro simple ends
        apply follows.result
        rw [← List.dropLast_append_getLast? type last, ← List.cons_append]
        exact .intersection _ simple ends
      have tail := moreConjuncts_written (readTerm n) (second :: others) n depth rest (by omega)
        (fun type found => opening_memberText (opens type (List.mem_cons_of_mem _ found))) plain
        (fun type found more =>
          readTerm_before_ampersand (reads type (List.mem_cons_of_mem _ found))
            (opens type (List.mem_cons_of_mem _ found)) n depth more
            (by have := bounds.2 type found; omega))
        final follows.conjunct
      apply alternation_single (by omega) _ follows.alternative
      simp only [List.flatMap_cons, List.cons_append, List.append_assoc] at head tail ⊢
      simp only [conjunction, head, bind_ok, tail]
      rfl

/-- Every printable type is read back. -/
theorem reads_of_printable {type : DocType} (printable : Printable type) : Reads type := by
  -- only a type that no `|` or `&` joins is read as a term; the other two are read as a whole
  induction printable with
  | name name => exact .of_term (readsTerm_name name) (opening_text (.name name))
  | quoted quoted => exact .of_term (readsTerm_quoted quoted) (opening_text (.quoted quoted))
  | number number => exact .of_term (readsTerm_number number) (opening_text (.number number))
  | constant name word =>
      exact .of_term (readsTerm_constant name word) (opening_text (.constant name word))
  | nullable simple inner ih =>
      exact .of_term (readsTerm_nullable (ih.term simple)) (opening_text (.nullable simple inner))
  | array noResult item ih =>
      exact .of_term (readsTerm_array noResult ih.term ih.back (opening_text item))
        (opening_text (.array noResult item))
  | generic base nonempty arguments ih =>
      exact .of_term
        (readsTerm_generic base nonempty
          (fun type found any => opening_text (arguments type found any))
          (fun type found any => (ih type found any).back))
        (opening_text (.generic base nonempty arguments))
  | shape base fits values ih =>
      exact .of_term
        (readsTerm_shape base fits (fun entry found => opening_text (values entry found))
          (fun entry found => (ih entry found).back))
        (opening_text (.shape base fits values))
  | callable base callable simple parameters result ihParameters ihResult =>
      exact .of_term
        (readsTerm_callable base callable (fun type found => opening_text (parameters type found))
          (fun type found => (ihParameters type found).back)
          (fun type found => ⟨opening_text (result type found),
            (ihResult type found).term (simple type found)⟩))
        (opening_text (.callable base callable simple parameters result))
  | conditional plain closed subject target positive negative ihSubject ihTarget ihPositive
      ihNegative =>
      exact .of_term
        (readsTerm_conditional plain closed (opening_text subject) (opening_text target)
          ihSubject.back ihTarget.back ihPositive.back ihNegative.back)
        (opening_text (.conditional plain closed subject target positive negative))
  | union many flat members ih =>
      exact ⟨nofun,
        readsBack_union many flat (fun type found => opening_text (members type found)) ih⟩
  | intersection many plain members ih =>
      exact ⟨nofun, readsBack_intersection many plain
        (fun type found => opening_text (members type found)) ih⟩

/-- A printable type is read back before anything that is set apart by white space and does not
go on with it. -/
theorem parseType_behind {type : DocType} (printable : Printable type) (rest : Text)
    (follows : Follows 0 type rest) (apart : ∀ c ∈ rest.head?, isBlank c = true) :
    parseType (type.text ++ rest) = .ok (type, rest) := by
  have enough : 2 * type.text.length + 1 ≤ allowanceFor (type.text ++ rest) := by
    simp only [allowanceFor, List.length_append]
    omega
  have read := (reads_of_printable printable).back _ 0 rest enough follows
  simp only [parseType, read, bind_ok]
  cases rest with
  | nil => rfl
  | cons c rest => simp only [apart c rfl, ↓reduceIte]; rfl

/-- A printable type is what its text is parsed to, alone and before anything that is set apart
by white space and does not go on with it. -/
theorem parseType_text {type : DocType} (printable : Printable type) :
    parseType type.text = .ok (type, []) ∧
      ∀ rest, Follows 0 type rest → (∀ c ∈ rest.head?, isBlank c = true) →
        parseType (type.text ++ rest) = .ok (type, rest) := by
  refine ⟨?_, parseType_behind printable⟩
  simpa using parseType_behind printable [] (follows_nil 0 type) nofun

/-- A type with one of everything, for which the conditions hold. -/
def variedType : DocType :=
  .union [
    .shape "array".toList [
      ⟨some "id".toList, false, .name "int".toList⟩,
      ⟨some "'a b'".toList, true, .nullable (.array (.name "\\Foo".toList))⟩,
      ⟨none, false,
        .intersection [.name "A".toList, .union [.name "B".toList, .name "$this".toList]]⟩],
    .callable "Closure".toList [.generic "list".toList [star, .literal "-1.5".toList]]
      (some (.array (.union [.name "X".toList, .name "Y".toList]))),
    .conditional "?A|B".toList true (.name "not".toList) (.literal "'it\\'s'".toList)
      (.callable "callable".toList [] none),
    .literal "Foo::BAR_*".toList]

theorem printable_variedType : Printable variedType := by
  have names : ∀ s ∈ ["int", "\\Foo", "A", "B", "$this", "X", "Y", "not"].map String.toList,
      Printable (.name s) := fun s found => .name (by revert s; decide)
  have pair : ∀ s t, Printable (.name s) → Printable (.name t) →
      Printable (.union [.name s, .name t]) := by
    intro s t first second
    exact .union (by simp) (by simp) (by simp [first, second])
  have either := pair "B".toList "$this".toList (names _ (by decide)) (names _ (by decide))
  have both : Printable
      (.intersection [.name "A".toList, .union [.name "B".toList, .name "$this".toList]]) :=
    .intersection (by decide) (by simp [memberText, isCompound, parenthesizedIf])
      (by simpa using ⟨names "A".toList (by decide), either⟩)
  have shape : Printable (.shape "array".toList [
      ⟨some "id".toList, false, .name "int".toList⟩,
      ⟨some "'a b'".toList, true, .nullable (.array (.name "\\Foo".toList))⟩,
      ⟨none, false,
        .intersection [.name "A".toList, .union [.name "B".toList, .name "$this".toList]]⟩]) := by
    refine .shape (by decide) ?_ ?_
    · simp only [List.forall_mem_cons]
      exact ⟨(by decide : isKey "id".toList = true), (by decide : isKey "'a b'".toList = true),
        ⟨rfl, by decide⟩, List.forall_mem_nil _⟩
    · simp only [List.forall_mem_cons]
      exact ⟨names _ (by decide), .nullable rfl (.array (by simp) (names _ (by decide))), both,
        List.forall_mem_nil _⟩
  have callable : Printable (.callable "Closure".toList
      [.generic "list".toList [star, .literal "-1.5".toList]]
      (some (.array (.union [.name "X".toList, .name "Y".toList])))) := by
    refine .callable (by decide) (by decide) (by simp [isCompound]) ?_ ?_
    · simp only [List.forall_mem_cons]
      refine ⟨.generic (by decide) (by simp) ?_, List.forall_mem_nil _⟩
      simp only [List.forall_mem_cons]
      exact ⟨fun other => absurd rfl other, fun _ => .number (by decide), List.forall_mem_nil _⟩
    · intro type found
      cases found
      exact .array (by simp) (pair _ _ (names _ (by decide)) (names _ (by decide)))
  have condition : Printable (.conditional "?A|B".toList true (.name "not".toList)
      (.literal "'it\\'s'".toList) (.callable "callable".toList [] none)) := by
    have subject : Printable (.union [.nullable (.name "A".toList), .name "B".toList]) := by
      refine .union (by decide) (by simp) ?_
      simp only [List.forall_mem_cons]
      exact ⟨.nullable rfl (names _ (by decide)), names _ (by decide), List.forall_mem_nil _⟩
    have positive : Printable (.literal "'it\\'s'".toList) := .quoted (by decide)
    have negative : Printable (.callable "callable".toList [] none) :=
      .callable (by decide) (by decide) (by simp) (List.forall_mem_nil _) (by simp)
    have target : Printable (.name "not".toList) := names _ (by decide)
    have whole : Printable (.conditional
        (DocType.union [.nullable (.name "A".toList), .name "B".toList]).text true
        (.name "not".toList) (.literal "'it\\'s'".toList) (.callable "callable".toList [] none)) :=
      .conditional (by simp) (by rintro ⟨⟩) subject target positive negative
    exact whole
  have constant : Printable (.literal "Foo::BAR_*".toList) :=
    @Printable.constant "Foo".toList "BAR_*".toList (by decide) (by decide)
  refine .union (by decide) (by simp) ?_
  simp only [List.forall_mem_cons]
  exact ⟨shape, callable, condition, constant, List.forall_mem_nil _⟩

example : variedType.text =
    ("array\x7bid: int, 'a b'?: ?\\Foo[], A&(B|$this)\x7d|Closure(list<*, -1.5>): (X|Y)[]|" ++
      "(?A|B is not not ? 'it\\'s' : callable())|Foo::BAR_*").toList := by
  decide +kernel

theorem parseType_variedType :
    Printable variedType ∧ Follows 0 variedType " &...$x the rest".toList ∧
      parseType variedType.text = .ok (variedType, []) ∧
      parseType (variedType.text ++ " &...$x the rest".toList) =
        .ok (variedType, " &...$x the rest".toList) := by
  have follows : Follows 0 variedType " &...$x the rest".toList := by
    refine ⟨?_, fun _ => ?_, ?_, ?_⟩
    · intro c found
      cases found
      decide
    · decide
    · decide
    · intro more equal
      cases equal
      decide
  have read := parseType_text printable_variedType
  have apart : ∀ c ∈ (" &...$x the rest".toList).head?, isBlank c = true := by
    intro c found
    cases found
    decide
  exact ⟨printable_variedType, follows, read.1, read.2 _ follows apart⟩

end DocSig.DocType
