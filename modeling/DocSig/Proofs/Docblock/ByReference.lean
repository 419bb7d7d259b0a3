import DocSig.Proofs.DocType.Locality
import DocSig.Proofs.Docblock.Result

/-!
A parameter that is passed by reference.

The grammar of types and the reader of variables both look at the `&` behind a parameter's type.
The grammar passes over the spaces behind it, and leaves it to the variable whatever the type
(`parseType_reference`). The reader of variables does not pass over them, so it finds the variable
only directly behind the `&` (`parseParameter_reference`).
-/

set_option autoImplicit false

namespace DocSig.Docblock

open DocType

variable {t gap inner name : Text} {type : DocType}

/-- A variable that is passed by reference, with the spaces before its `&` and behind it. -/
def referenceText (gap inner name : Text) : Text := gap ++ '&' :: (inner ++ '$' :: name)

/-- Spaces and tabs are passed over up to the character behind them. -/
theorem dropWhile_spaces (spaces : ∀ c ∈ gap, isSpaceOrTab c = true) {c : Char} (rest : Text)
    (solid : isSpaceOrTab c = false) : (gap ++ c :: rest).dropWhile isSpaceOrTab = c :: rest :=
  dropWhile_word isSpaceOrTab gap (c :: rest) spaces ((stopsAt_cons _ _ _).mpr solid)

theorem spaceOrTab_cases {c : Char} (space : isSpaceOrTab c = true) : c = ' ' ∨ c = '\t' := by
  simpa [isSpaceOrTab] using space

theorem head_reference (wide : gap ≠ []) (spaces : ∀ c ∈ gap, isSpaceOrTab c = true) :
    ∀ c ∈ (referenceText gap inner name).head?, c = ' ' ∨ c = '\t' := by
  obtain ⟨first, gap, rfl⟩ := List.exists_cons_of_ne_nil wide
  intro c found
  obtain rfl : first = c := Option.some.inj found
  exact spaceOrTab_cases (spaces first List.mem_cons_self)

/-- Such a variable goes on with no type. -/
theorem still_reference (wide : gap ≠ []) (spaces : ∀ c ∈ gap, isSpaceOrTab c = true)
    (within : ∀ c ∈ inner, isSpaceOrTab c = true) : Still (referenceText gap inner name) := by
  have seen : (referenceText gap inner name).dropWhile isSpaceOrTab =
      '&' :: (inner ++ '$' :: name) := dropWhile_spaces spaces _ (by decide)
  refine ⟨⟨?_, ?_, ?_⟩, ?_⟩
  · intro c found
    rcases head_reference wide spaces c found with rfl | rfl <;> decide
  · rw [seen]
    intro c found
    cases found
    decide
  · rw [seen]
    rintro more same
    obtain rfl : inner ++ '$' :: name = more := (List.cons.inj same).2
    rw [dropWhile_spaces within name (by decide)]
    rfl
  · unfold Unbarred
    rw [seen]
    intro c found
    cases found
    decide

/-- Behind a whole type, the `&` is left to the variable. -/
theorem parseType_reference (read : parseType t = .ok (type, [])) (wide : gap ≠ [])
    (spaces : ∀ c ∈ gap, isSpaceOrTab c = true) (within : ∀ c ∈ inner, isSpaceOrTab c = true) :
    parseType (t ++ referenceText gap inner name) = .ok (type, referenceText gap inner name) := by
  refine parseType_swap (by rwa [List.append_nil]) (still_reference wide spaces within) ?_
  intro c found
  rcases head_reference wide spaces c found with rfl | rfl <;> decide

/-- The reader of variables finds the variable directly behind the `&` and nowhere else. -/
theorem variableAt_reference (spaces : ∀ c ∈ gap, isSpaceOrTab c = true)
    (within : ∀ c ∈ inner, isSpaceOrTab c = true) (named : name ≠ [])
    (chars : ∀ c ∈ name, isVariableChar c = true) :
    variableAt (referenceText gap inner name) =
      if inner = [] then some ('$' :: name) else none := by
  have blank : ∀ c ∈ gap, isBlank c = true := by
    intro c found
    rcases spaceOrTab_cases (spaces c found) with rfl | rfl <;> decide
  have trimmed : Text.trimStart (referenceText gap inner name) = '&' :: (inner ++ '$' :: name) :=
    dropWhile_word isBlank gap _ blank ((stopsAt_cons _ _ _).mpr (by decide))
  rw [variableAt, trimmed]
  cases inner with
  | nil =>
      have word : name.takeWhile isVariableChar = name := by
        simpa using takeWhile_word isVariableChar name [] chars (stopsAt_nil _)
      simp [Text.dropOptional, Text.after?, word, named]
  | cons first inner =>
      rcases spaceOrTab_cases (within first List.mem_cons_self) with rfl | rfl <;>
        simp [Text.dropOptional, Text.after?]

/-- Behind a whole type that does not itself look like a variable, the grammar leaves the `&` to
the variable, whatever spaces stand around it; the tag then declares the variable with that type if
there are none between the two, and is refused for having no variable if there are. -/
theorem parseParameter_reference (read : parseType t = .ok (type, [])) (first : StopsAt isBlank t)
    (wide : gap ≠ []) (spaces : ∀ c ∈ gap, isSpaceOrTab c = true)
    (within : ∀ c ∈ inner, isSpaceOrTab c = true) (named : name ≠ [])
    (chars : ∀ c ∈ name, isVariableChar c = true) :
    parseType (t ++ referenceText gap inner name) = .ok (type, referenceText gap inner name) ∧
      parseParameter (t ++ referenceText gap inner name) =
        if t.head? = some '$' then .error (.missingType "@param".toList)
        else if inner = [] then .ok ⟨'$' :: name, type.toAlternatives⟩
        else .error .missingVariable := by
  have whole : parseType (t ++ referenceText gap inner name) =
      .ok (type, referenceText gap inner name) := parseType_reference read wide spaces within
  refine ⟨whole, ?_⟩
  obtain ⟨c, more, rfl, -⟩ := parseType_head read
  have start : StopsAt isBlank (c :: more ++ referenceText gap inner name) :=
    (stopsAt_cons _ _ _).mpr ((stopsAt_cons _ _ _).mp first)
  rw [parseParameter, parseTagType_read whole start, List.cons_append, List.head?_cons,
    List.head?_cons]
  split
  · rfl
  · simp only [bind, Except.bind, variableAt_reference spaces within named chars]
    by_cases direct : inner = []
    · simp only [direct, ↓reduceIte]
      rfl
    · simp only [direct, ↓reduceIte]

/-- A variable passed by reference behind an intersection, with a tab in front of its `&`. -/
theorem parseParameter_intersection :
    parseParameter ("A & B".toList ++ referenceText ['\t'] [] "x_1".toList) =
      .ok ⟨"$x_1".toList, .single "A&B".toList⟩ := by
  have read : parseType "A & B".toList =
      .ok (.intersection [.name "A".toList, .name "B".toList], []) := by
    decide +kernel
  have first : StopsAt isBlank "A & B".toList := (stopsAt_cons isBlank 'A' _).mpr (by decide)
  have spaces : ∀ c ∈ ['\t'], isSpaceOrTab c = true := forall_of_all (by decide)
  have within : ∀ c ∈ ([] : Text), isSpaceOrTab c = true := List.forall_mem_nil _
  have chars : ∀ c ∈ "x_1".toList, isVariableChar c = true := forall_of_all (by decide +kernel)
  exact (parseParameter_reference read first (by decide) spaces within (by decide) chars).2

/-- With a space behind its `&` the variable is not found, though the grammar leaves it there. -/
theorem parseParameter_spaced :
    parseType "Foo & $x".toList = .ok (.name "Foo".toList, " & $x".toList) ∧
      parseParameter "Foo & $x".toList = .error .missingVariable := by
  refine ⟨by decide +kernel, ?_⟩
  decide +kernel

end DocSig.Docblock
