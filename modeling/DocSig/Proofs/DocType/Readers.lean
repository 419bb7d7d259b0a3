import DocSig.DocType.Parser
import DocSig.Proofs.DocType.Printable

/-!
What each reader of the grammar does on a text that is written in the canonical form, given
what the readers of its parts do there.

A reader of a list or of a chain of members is followed through all its rounds here; which
types the parts are plays no role yet.
-/

set_option autoImplicit false

namespace DocSig.DocType

/-- What is left of a text behind the white space that may separate parts at a depth. -/
def behindSeparators (depth : Nat) (rest : Text) : Text :=
  (Cursor.mk rest depth).skipSeparators.rest

@[simp] theorem skipSeparators_eq (depth : Nat) (rest : Text) :
    (Cursor.mk rest depth).skipSeparators = ⟨behindSeparators depth rest, depth⟩ := by
  unfold behindSeparators Cursor.skipSeparators
  split <;> rfl

@[simp] theorem skipBlank_eq (depth : Nat) (rest : Text) :
    (Cursor.mk rest depth).skipBlank = ⟨rest.trimStart, depth⟩ := rfl

theorem isBlank_of_isSpaceOrTab {c : Char} (space : isSpaceOrTab c = true) : isBlank c = true := by
  simp only [isSpaceOrTab, Bool.or_eq_true, beq_iff_eq] at space
  rcases space with rfl | rfl <;> decide

theorem behindSeparators_solid (depth : Nat) (c : Char) (rest : Text) (solid : isBlank c = false) :
    behindSeparators depth (c :: rest) = c :: rest := by
  have notSpace : isSpaceOrTab c = false := by
    by_contra space
    rw [isBlank_of_isSpaceOrTab (by simpa using space)] at solid
    cases solid
  unfold behindSeparators Cursor.skipSeparators
  split
  · exact Text.trimStart_cons_solid c rest solid
  · simp [notSpace]

@[simp] theorem behindSeparators_nil (depth : Nat) : behindSeparators depth [] = [] := by
  unfold behindSeparators Cursor.skipSeparators
  split <;> rfl

theorem behindSeparators_space (depth : Nat) (rest : Text) :
    behindSeparators depth (' ' :: rest) = behindSeparators depth rest := by
  unfold behindSeparators Cursor.skipSeparators
  split
  · exact Text.trimStart_space rest
  · simp [isSpaceOrTab]

theorem bind_ok {α β : Type} (x : α) (next : α → Except TypeFault β) :
    (Except.ok x >>= next) = next x := rfl

theorem wrapArrays_bracket (type : DocType) (rest : Text) :
    wrapArrays type ('[' :: ']' :: rest) = wrapArrays (.array type) rest := rfl

theorem wrapArrays_of_head (type : DocType) (rest : Text) (head : rest.head? ≠ some '[') :
    wrapArrays type rest = (type, rest) := by
  unfold wrapArrays
  split
  · simp at head
  · rfl

theorem expect_solid (wanted : Char) (rest : Text) (depth : Nat) (solid : isBlank wanted = false) :
    expect wanted ⟨wanted :: rest, depth⟩ = .ok ⟨rest, depth⟩ := by
  simp [expect, Text.trimStart_cons_solid wanted rest solid]

theorem expect_space (wanted : Char) (rest : Text) (depth : Nat) :
    expect wanted ⟨' ' :: rest, depth⟩ = expect wanted ⟨rest, depth⟩ := by
  simp only [expect, Text.trimStart_space]

def startsType (c : Char) : Bool :=
  c == '?' || c == '(' || c == '\'' || c == '"' || c == '-' || c.isDigit || isNameStart c

theorem Opening.head {s : Text} (opening : Opening s) :
    ∃ c more, s = c :: more ∧ startsType c = true ∧ isBlank c = false := by
  cases opening with
  | mark c more kind =>
      refine ⟨c, more, rfl, ?_⟩
      rcases kind with rfl | rfl <;> decide
  | quoted word tail quoted _ =>
      obtain ⟨quote, body, rfl, kind, -⟩ := (isQuoted_iff word).mp quoted
      refine ⟨quote, body ++ tail, rfl, ?_⟩
      rcases kind with rfl | rfl <;> decide
  | number word tail number _ =>
      unfold isNumber at number
      split at number
      · exact ⟨'-', _, rfl, by decide, by decide⟩
      · obtain ⟨c, more, rfl, digit, -⟩ := (isDigitLed_iff word).mp number
        exact ⟨c, more ++ tail, rfl, by simp [startsType, digit], isBlank_of_isDigit digit⟩
  | name word tail name _ =>
      obtain ⟨c, more, rfl, start, -, -, solid⟩ := (isName_iff word).mp name
      exact ⟨c, more ++ tail, rfl, by simp [startsType, start], solid c (by simp)⟩

theorem ne_of_startsType {c d : Char} (start : startsType c = true) (other : startsType d = false) :
    c ≠ d := by
  rintro rfl
  rw [start] at other
  cases other

theorem trimStart_opening {s : Text} (opening : Opening s) (rest : Text) :
    Text.trimStart (s ++ rest) = s ++ rest := by
  obtain ⟨c, more, rfl, -, solid⟩ := opening.head
  exact Text.trimStart_cons_solid c (more ++ rest) solid

theorem behindSeparators_opening {s : Text} (opening : Opening s) (depth : Nat) (rest : Text) :
    behindSeparators depth (s ++ rest) = s ++ rest := by
  obtain ⟨c, more, rfl, -, solid⟩ := opening.head
  exact behindSeparators_solid depth c (more ++ rest) solid

/-- A reader of the members behind a mark each: what is read by one round and left to the next. -/
theorem chain_written (mark : Char) (member : Reader DocType) (chain : Nat → Reader (List DocType))
    (others : List DocType) (allowance depth : Nat) (rest : Text)
    (enough : others.length < allowance)
    (stops : ∀ n, chain (n + 1) ⟨rest, depth⟩ = .ok ([], ⟨rest, depth⟩))
    (goesOn : ∀ type ∈ others, ∀ n tail,
      chain (n + 1) ⟨mark :: (type.memberText ++ tail), depth⟩ = do
        let (first, here) ← member ⟨type.memberText ++ tail, depth⟩
        let (more, here) ← chain n here
        return (first :: more, here))
    (inner : ∀ type ∈ others, ∀ more,
      member ⟨type.memberText ++ mark :: more, depth⟩ = .ok (type, ⟨mark :: more, depth⟩))
    (final : ∀ type, others.getLast? = some type →
      member ⟨type.memberText ++ rest, depth⟩ = .ok (type, ⟨rest, depth⟩)) :
    chain allowance ⟨(others.flatMap fun type => mark :: type.memberText) ++ rest, depth⟩ =
      .ok (others, ⟨rest, depth⟩) := by
  induction others generalizing allowance with
  | nil =>
      obtain ⟨n, rfl⟩ : ∃ n, allowance = n + 1 := ⟨allowance - 1, by simp at enough; omega⟩
      exact stops n
  | cons type others ih =>
      obtain ⟨n, rfl⟩ : ∃ n, allowance = n + 1 := ⟨allowance - 1, by simp at enough; omega⟩
      have more := ih n (by simp at enough; omega)
        (fun other found => goesOn other (by simp [found]))
        (fun other found => inner other (by simp [found]))
        (fun last found => final last (by rw [List.getLast?_cons, found]; rfl))
      generalize tailed : (others.flatMap fun type => mark :: type.memberText) ++ rest = tail
        at more
      have reads : member ⟨type.memberText ++ tail, depth⟩ = .ok (type, ⟨tail, depth⟩) := by
        rw [← tailed]
        cases others with
        | nil => exact final type rfl
        | cons second others => exact inner type (by simp) _
      have whole : ((type :: others).flatMap fun type => mark :: type.memberText) ++ rest =
          mark :: (type.memberText ++ tail) := by
        rw [← tailed]
        simp
      rw [whole, goesOn type (by simp)]
      simp only [reads, more, bind_ok]
      rfl

/-- The members of a union behind its first one are read back one by one. -/
theorem moreAlternatives_written (member : Reader DocType) (others : List DocType)
    (allowance depth : Nat) (rest : Text) (enough : others.length < allowance)
    (opens : ∀ type ∈ others, Opening type.memberText)
    (inner : ∀ type ∈ others, ∀ more,
      member ⟨type.memberText ++ '|' :: more, depth⟩ = .ok (type, ⟨'|' :: more, depth⟩))
    (final : ∀ type, others.getLast? = some type →
      member ⟨type.memberText ++ rest, depth⟩ = .ok (type, ⟨rest, depth⟩))
    (done : (behindSeparators depth rest).head? ≠ some '|') :
    moreAlternatives member allowance
      ⟨(others.flatMap fun type => '|' :: type.memberText) ++ rest, depth⟩ =
        .ok (others, ⟨rest, depth⟩) := by
  refine chain_written '|' member (moreAlternatives member) others allowance depth rest enough
    ?_ ?_ inner final
  · intro n
    simp only [moreAlternatives, skipSeparators_eq]
    split
    · next more found => simp [found] at done
    · rfl
  · intro type found n tail
    have nonempty : (type.memberText ++ tail).isEmpty = false := by
      obtain ⟨c, s, equal, -⟩ := (opens type found).head
      simp [equal]
    simp only [moreAlternatives, skipSeparators_eq, behindSeparators_solid depth '|' _ (by decide),
      behindSeparators_opening (opens type found), nonempty, Bool.false_eq_true, ↓reduceIte]

/-- The members of an intersection behind its first one are read back one by one; none of them
looks like a variable that is passed by reference. -/
theorem moreConjuncts_written (member : Reader DocType) (others : List DocType)
    (allowance depth : Nat) (rest : Text) (enough : others.length < allowance)
    (opens : ∀ type ∈ others, Opening type.memberText)
    (plain : ∀ type ∈ others, type.memberText.head? ≠ some '$')
    (inner : ∀ type ∈ others, ∀ more,
      member ⟨type.memberText ++ '&' :: more, depth⟩ = .ok (type, ⟨'&' :: more, depth⟩))
    (final : ∀ type, others.getLast? = some type →
      member ⟨type.memberText ++ rest, depth⟩ = .ok (type, ⟨rest, depth⟩))
    (done : ∀ more, behindSeparators depth rest = '&' :: more →
      startsVariable (behindSeparators depth more) = true) :
    moreConjuncts member allowance
      ⟨(others.flatMap fun type => '&' :: type.memberText) ++ rest, depth⟩ =
        .ok (others, ⟨rest, depth⟩) := by
  refine chain_written '&' member (moreConjuncts member) others allowance depth rest enough
    ?_ ?_ inner final
  · intro n
    simp only [moreConjuncts, skipSeparators_eq]
    split
    · next more found => simp only [done more found, ↓reduceIte]
    · rfl
  · intro type found n tail
    have notVariable : startsVariable (type.memberText ++ tail) = false := by
      obtain ⟨c, s, equal, start, -⟩ := (opens type found).head
      have notDollar := plain type found
      have notDot := ne_of_startsType (d := '.') start (by decide)
      simp only [equal, List.head?_cons, ne_eq, Option.some.injEq] at notDollar
      simp [equal, startsVariable, notDollar, notDot]
    simp only [moreConjuncts, skipSeparators_eq, behindSeparators_solid depth '&' _ (by decide),
      behindSeparators_opening (opens type found), notVariable, Bool.false_eq_true, ↓reduceIte]

theorem listUntil_last {α : Type} (item : Reader α) (close : Char) (allowance depth : Nat)
    (front rest : Text) (x : α) (solid : isBlank close = false) (notComma : close ≠ ',')
    (goesOn : front.trimStart.head? ≠ some close)
    (read : item ⟨front.trimStart, depth⟩ = .ok (x, ⟨close :: rest, depth⟩)) :
    listUntil item close (allowance + 1) ⟨front, depth⟩ = .ok ([x], ⟨rest, depth⟩) := by
  rw [listUntil, if_neg goesOn, skipBlank_eq, read, bind_ok]
  simp only [Text.trimStart_cons_solid close rest solid, expect_solid close rest depth solid]
  split
  · next more found => exact absurd (by simpa using congrArg List.head? found) notComma
  · rfl

theorem listUntil_more {α : Type} (item : Reader α) (close : Char) (allowance depth : Nat)
    (front rest : Text) (x : α) (xs : List α) (there : Cursor)
    (goesOn : front.trimStart.head? ≠ some close)
    (read : item ⟨front.trimStart, depth⟩ = .ok (x, ⟨',' :: rest, depth⟩))
    (others : listUntil item close allowance ⟨rest, depth⟩ = .ok (xs, there)) :
    listUntil item close (allowance + 1) ⟨front, depth⟩ = .ok (x :: xs, there) := by
  rw [listUntil, if_neg goesOn, skipBlank_eq, read, bind_ok]
  simp only [Text.trimStart_cons_solid ',' rest (by decide), others]
  rfl

/-- The items of a list are read back one by one, with the white space that follows each comma. -/
theorem listUntil_written {α β : Type} (item : Reader α) (close : Char) (written : β → Text)
    (value : β → α) (xs : List β) (allowance depth : Nat) (front rest : Text)
    (solid : isBlank close = false) (notComma : close ≠ ',') (enough : xs.length < allowance)
    (opens : ∀ x ∈ xs, ∃ c more, written x = c :: more ∧ c ≠ close ∧ isBlank c = false)
    (reads : ∀ x ∈ xs, ∀ c more, c = ',' ∨ c = close →
      item ⟨written x ++ c :: more, depth⟩ = .ok (value x, ⟨c :: more, depth⟩))
    (start : front.trimStart = Text.join [',', ' '] (xs.map written) ++ close :: rest) :
    listUntil item close allowance ⟨front, depth⟩ = .ok (xs.map value, ⟨rest, depth⟩) := by
  induction xs generalizing allowance front with
  | nil =>
      obtain ⟨allowance, rfl⟩ : ∃ n, allowance = n + 1 := ⟨allowance - 1, by simp at enough; omega⟩
      simp [listUntil, start]
  | cons x xs ih =>
      obtain ⟨allowance, rfl⟩ : ∃ n, allowance = n + 1 := ⟨allowance - 1, by simp at enough; omega⟩
      obtain ⟨c, more, equal, notClose, -⟩ := opens x (by simp)
      rw [List.map_cons, Text.join_cons, List.flatMap_map, List.append_assoc] at start
      have goesOn : front.trimStart.head? ≠ some close := by
        rw [start, equal]
        simpa using notClose
      cases xs with
      | nil =>
          apply listUntil_last item close allowance depth front rest _ solid notComma goesOn
          rw [start]
          exact reads x (by simp) close rest (Or.inr rfl)
      | cons y xs =>
          obtain ⟨d, others, secondStarts, -, secondSolid⟩ := opens y (by simp)
          apply listUntil_more item close allowance depth front
            (' ' :: (written y ++ (xs.flatMap fun z => [',', ' '] ++ written z) ++ close :: rest))
            _ _ _ goesOn
          · rw [start]
            simpa using reads x (by simp) ',' _ (Or.inl rfl)
          · apply ih allowance _ (by simp at enough ⊢; omega)
              (fun z found => opens z (by simp [found])) (fun z found => reads z (by simp [found]))
            rw [Text.trimStart_space, List.map_cons, Text.join_cons, List.flatMap_map, secondStarts]
            exact Text.trimStart_cons_solid d _ secondSolid

/-- A list is read back from behind its opening bracket. -/
theorem listUntil_bracketed {α β : Type} (item : Reader α) (close : Char) (written : β → Text)
    (value : β → α) (xs : List β) (allowance depth : Nat) (rest : Text)
    (solid : isBlank close = false) (notComma : close ≠ ',')
    (enough : (Text.join [',', ' '] (xs.map written)).length + 1 < allowance)
    (opens : ∀ x ∈ xs, ∃ c more, written x = c :: more ∧ c ≠ close ∧ isBlank c = false)
    (reads : ∀ x ∈ xs, ∀ c more, c = ',' ∨ c = close →
      item ⟨written x ++ c :: more, depth⟩ = .ok (value x, ⟨c :: more, depth⟩)) :
    listUntil item close allowance
      ⟨Text.join [',', ' '] (xs.map written) ++ close :: rest, depth⟩ =
        .ok (xs.map value, ⟨rest, depth⟩) := by
  have count := Text.count_le_join [',', ' '] (xs.map written) (by simp)
  rw [List.length_map] at count
  apply listUntil_written item close written value xs allowance depth _ rest solid notComma
    (by omega) opens reads
  cases xs with
  | nil => exact Text.trimStart_cons_solid close rest solid
  | cons x xs =>
      obtain ⟨c, more, equal, -, visible⟩ := opens x (by simp)
      rw [List.map_cons, Text.join_cons, equal]
      exact Text.trimStart_cons_solid c _ visible

theorem readTerm_succ (allowance : Nat) (here : Cursor) :
    readTerm (allowance + 1) here =
      arrayed (atom (readUnion allowance) (readTerm allowance) allowance) here := by
  rw [readTerm]

theorem readUnion_succ (allowance : Nat) (here : Cursor) :
    readUnion (allowance + 1) here =
      alternation (conjunction (readTerm allowance) allowance) allowance here := by
  rw [readUnion]

/-- A term is read as its atom, wrapped once for each `[]` behind it. -/
theorem readTerm_of_atom {allowance depth : Nat} {s rest : Text} {type : DocType}
    (read : atom (readUnion allowance) (readTerm allowance) allowance ⟨s, depth⟩ =
      .ok (type, ⟨rest, depth⟩)) :
    readTerm (allowance + 1) ⟨s, depth⟩ =
      .ok ((wrapArrays type rest).1, ⟨(wrapArrays type rest).2, depth⟩) := by
  rw [readTerm_succ, arrayed, read, bind_ok]
  rfl

/-- Where no white space comes first, nothing is skipped before an atom. -/
theorem atom_cursor (depth : Nat) (c : Char) (rest : Text) (solid : isBlank c = false) :
    (if 0 < depth then (Cursor.mk (c :: rest) depth).skipBlank else ⟨c :: rest, depth⟩) =
      ⟨c :: rest, depth⟩ := by
  split
  · rw [skipBlank_eq, Text.trimStart_cons_solid c rest solid]
  · rfl

/-- Within brackets a space before a type is skipped. -/
theorem readUnion_space (allowance depth : Nat) (rest : Text) :
    readUnion allowance ⟨' ' :: rest, depth + 1⟩ = readUnion allowance ⟨rest, depth + 1⟩ := by
  cases allowance with
  | zero => rfl
  | succ allowance =>
      have same : readTerm allowance ⟨' ' :: rest, depth + 1⟩ =
          readTerm allowance ⟨rest, depth + 1⟩ := by
        cases allowance with
        | zero => rfl
        | succ allowance =>
            simp only [readTerm_succ, arrayed, atom, Nat.zero_lt_succ, ↓reduceIte, skipBlank_eq,
              Text.trimStart_space]
      simp only [readUnion_succ, alternation, conjunction, same]

theorem isNameStart_plain {c : Char} (start : isNameStart c = true) :
    c.isDigit = false ∧ c ≠ '-' ∧ c ≠ '?' ∧ c ≠ '(' ∧ c ≠ '\'' ∧ c ≠ '"' := by
  refine ⟨?_, ?_, ?_, ?_, ?_, ?_⟩
  · by_contra digit
    rw [isNameStart_of_isDigit (by simpa using digit)] at start
    cases start
  all_goals
    rintro rfl
    revert start
    decide

theorem atom_name (union term : Reader DocType) (allowance depth : Nat) (word rest : Text)
    (name : isName word = true) :
    atom union term allowance ⟨word ++ rest, depth⟩ =
      named union term allowance ⟨word ++ rest, depth⟩ := by
  obtain ⟨c, more, rfl, start, -, -, solid⟩ := (isName_iff word).mp name
  obtain ⟨notDigit, notMinus, notMark, notParen, notSingle, notDouble⟩ := isNameStart_plain start
  have notNumber : startsNumber (c :: (more ++ rest)) = false := by
    unfold startsNumber
    split <;> simp_all
  rw [List.cons_append, atom, atom_cursor depth c _ (solid c (by simp))]
  simp only [notMark, notParen, notSingle, notDouble, or_self, notNumber, start, Bool.false_eq_true,
    ↓reduceIte]

end DocSig.DocType
