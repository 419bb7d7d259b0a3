import DocSig.Proofs.DocType.Allowance

/-!
Every reader of types goes on and comes to an end.

A reader that succeeds stops strictly behind its start, within the text, with as many brackets open
as before (`Advances`); so no loop over members or items stands still. Two steps for each character
and two more are enough for every text, whether a type can be read of it or not: at all allowances
from there on a reader gives one and the same answer (`Terminates`), and this is never that the
allowance ran out.
-/

set_option autoImplicit false

namespace DocSig.DocType

variable {α : Type}

/-- Whenever the reader succeeds it stops strictly behind its start, with as many brackets open. -/
def Advances (reader : Reader α) : Prop :=
  ∀ here x there, reader here = .ok (x, there) →
    there.depth = here.depth ∧ ∃ taken, taken ≠ [] ∧ here.rest = taken ++ there.rest

/-- What `allowanceFor` allows for the text that is left is enough: with more the answer is the
same, and it is not that the allowance ran out. -/
def Terminates (reader : Nat → Reader α) : Prop :=
  ∀ here allowance, allowanceFor here.rest ≤ allowance →
    SameAnswer (reader allowance here) (reader (allowanceFor here.rest) here)

/-- The reader goes on at every allowance and comes to an end at every one that is enough. -/
structure Progresses (reader : Nat → Reader α) : Prop where
  advances : ∀ allowance, Advances (reader allowance)
  terminates : Terminates reader

theorem Takes.advances {reader : Reader α} (takes : Takes reader) : Advances reader := by
  intro here x there read
  obtain ⟨same, front, last, taken, -⟩ := takes here x there read
  refine ⟨same, front ++ [last], by simp, ?_⟩
  rw [taken, List.append_assoc, List.singleton_append]

/-- What is taken off an end of a text is taken off the text, with what stands before that end. -/
theorem taken_of_suffix {s middle rest : Text} (front : middle <:+ s)
    (took : ∃ taken, taken ≠ [] ∧ middle = taken ++ rest) :
    ∃ taken, taken ≠ [] ∧ s = taken ++ rest := by
  obtain ⟨before, rfl⟩ := front
  obtain ⟨taken, some, rfl⟩ := took
  exact ⟨before ++ taken, by simp [some], (List.append_assoc before taken rest).symm⟩

theorem Advances.shortens {reader : Reader α} (advances : Advances reader) : Shortens reader := by
  intro here x there read
  obtain ⟨same, taken, -, split⟩ := advances here x there read
  exact ⟨same, taken, split.symm⟩

/-- Whatever of the words behind a parameter's type is there, the type itself is taken. -/
theorem advances_parameter {union : Reader DocType} (takes : Takes union) :
    Advances (parameter union) := by
  intro here x there read
  obtain ⟨middle, one, rfl⟩ := parameter_ok_iff.mp read
  obtain ⟨same, taken, some, split⟩ := takes.advances _ _ _ one
  obtain ⟨words, behind⟩ := behindParameter_suffix middle.rest
  refine ⟨same, taken ++ words, by simp [some], ?_⟩
  rw [split, List.append_assoc, behind]

/-- A list takes its closing bracket, so it goes on even without an item. -/
theorem advances_listUntil {item : Reader α} (shortens : Shortens item) (close : Char)
    (allowance : Nat) : Advances (listUntil item close allowance) := by
  induction allowance with
  | zero =>
      intro here xs there read
      cases read
  | succ allowance ih =>
      intro here xs there read
      have front := trimStart_suffix here.rest
      cases listUntil_ok_iff.mp read with
      | @closed rest mark =>
          have within : close :: rest <:+ here.rest := mark ▸ front
          exact ⟨rfl, taken_of_suffix within ⟨[close], by simp, rfl⟩⟩
      | @more rest _ _ middle _ goesOn first comma next =>
          obtain ⟨same, behind⟩ := shortens _ _ _ first
          obtain ⟨sameLast, took⟩ := ih _ _ _ next
          have within : ',' :: rest <:+ here.rest :=
            comma ▸ (trimStart_suffix middle.rest).trans (behind.trans front)
          exact ⟨sameLast.trans same,
            taken_of_suffix ((List.suffix_cons ',' rest).trans within) took⟩
      | last goesOn first noComma ended =>
          obtain ⟨same, behind⟩ := shortens _ _ _ first
          obtain ⟨sameLast, within⟩ := expect_takes ended
          exact ⟨sameLast.trans same,
            taken_of_suffix (within.trans (behind.trans front)) ⟨[close], by simp, rfl⟩⟩

theorem SameAnswer.symm {x y : Except TypeFault α} (same : SameAnswer x y) : SameAnswer y x :=
  ⟨same.1.symm, same.1 ▸ same.2⟩

theorem SameAnswer.trans {x y z : Except TypeFault α} (first : SameAnswer x y)
    (second : SameAnswer y z) : SameAnswer x z :=
  ⟨first.1.trans second.1, first.2⟩

/-- What is enough for one text is enough for all texts that are not longer. -/
theorem terminates_iff_agree {reader : Nat → Reader α} :
    Terminates reader ↔ ∀ bound allowance allowance', 2 * bound ≤ allowance →
      2 * bound ≤ allowance' → Agree bound (reader allowance) (reader allowance') := by
  constructor
  · intro terminates bound allowance allowance' enough enough' here short
    have least : allowanceFor here.rest ≤ 2 * bound := by
      unfold allowanceFor
      omega
    exact (terminates here allowance (by omega)).trans (terminates here allowance' (by omega)).symm
  · intro agree here allowance enough
    have least : 2 * (here.rest.length + 1) ≤ allowanceFor here.rest := Nat.le_refl _
    exact agree (here.rest.length + 1) allowance (allowanceFor here.rest) (by omega) least here
      (Nat.lt_succ_self _)

variable {bound allowance allowance' : Nat}

theorem agree_readUnion (enough : 2 * bound ≤ allowance) (enough' : 2 * bound ≤ allowance') :
    Agree bound (readUnion allowance) (readUnion allowance') :=
  (agree_types bound allowance allowance').1 enough enough'

theorem agree_readTerm (enough : 2 * bound ≤ allowance) (enough' : 2 * bound ≤ allowance') :
    Agree bound (readTerm allowance) (readTerm allowance') :=
  (agree_types bound allowance allowance').2 (by omega) (by omega)

theorem progresses_union : Progresses readUnion := by
  refine ⟨fun allowance => (takes_types allowance).1.advances, ?_⟩
  rw [terminates_iff_agree]
  intro bound allowance allowance' enough enough'
  exact agree_readUnion enough enough'

theorem progresses_conjunction :
    Progresses fun allowance => conjunction (readTerm allowance) allowance := by
  refine ⟨fun allowance => (takes_conjunction (takes_types allowance).2 allowance).advances, ?_⟩
  rw [terminates_iff_agree]
  intro bound allowance allowance' enough enough'
  exact agree_conjunction (takes_types allowance).2 (by omega) (by omega)
    (agree_readTerm enough enough')

theorem progresses_term : Progresses readTerm := by
  refine ⟨fun allowance => (takes_types allowance).2.advances, ?_⟩
  rw [terminates_iff_agree]
  intro bound allowance allowance' enough enough'
  exact agree_readTerm enough enough'

/-- A type that no operator joins calls other readers only behind its first character. -/
theorem progresses_atom :
    Progresses fun allowance => atom (readUnion allowance) (readTerm allowance) allowance := by
  refine ⟨fun allowance => ?_, ?_⟩
  · obtain ⟨takesUnion, takesTerm⟩ := takes_types allowance
    exact (takes_atom takesUnion takesTerm allowance).advances
  · rw [terminates_iff_agree]
    intro bound allowance allowance' enough enough'
    have longer := agree_atom (takes_types allowance).1 (show bound ≤ allowance by omega)
      (show bound ≤ allowance' by omega) (agree_readUnion enough enough')
      (agree_readTerm enough enough')
    exact longer.mono (Nat.le_succ bound)

theorem progresses_typeArgument :
    Progresses fun allowance => typeArgument (readUnion allowance) := by
  refine ⟨fun allowance => (takes_typeArgument (takes_types allowance).1).advances, ?_⟩
  rw [terminates_iff_agree]
  intro bound allowance allowance' enough enough'
  exact agree_typeArgument (agree_readUnion enough enough')

theorem progresses_shapeEntry :
    Progresses fun allowance => shapeEntry (readUnion allowance) := by
  refine ⟨fun allowance => (takes_shapeEntry (takes_types allowance).1).advances, ?_⟩
  rw [terminates_iff_agree]
  intro bound allowance allowance' enough enough'
  exact agree_shapeEntry (agree_readUnion enough enough')

theorem progresses_parameter :
    Progresses fun allowance => parameter (readUnion allowance) := by
  refine ⟨fun allowance => advances_parameter (takes_types allowance).1, ?_⟩
  rw [terminates_iff_agree]
  intro bound allowance allowance' enough enough'
  exact agree_parameter (agree_readUnion enough enough')

/-- If each item goes on and comes to an end, so does the list. -/
theorem Progresses.list {item : Nat → Reader α} (progresses : Progresses item) (close : Char) :
    Progresses fun allowance => listUntil (item allowance) close allowance := by
  obtain ⟨advances, terminates⟩ := progresses
  have shortens (allowance : Nat) : Shortens (item allowance) := (advances allowance).shortens
  refine ⟨fun allowance => advances_listUntil (shortens allowance) close allowance, ?_⟩
  rw [terminates_iff_agree] at terminates ⊢
  intro bound allowance allowance' enough enough'
  exact agree_listUntil close (shortens allowance) allowance (by omega) (by omega)
    (terminates bound allowance allowance' enough enough')

/-- No text is too deep: behind a type that was read only the next character can be wrong. -/
theorem parseType_ne_tooDeep (s : Text) : parseType s ≠ .error .tooDeep := by
  have whole : SameAnswer (readUnion (allowanceFor s) ⟨s, 0⟩) (readUnion (allowanceFor s) ⟨s, 0⟩) :=
    progresses_union.terminates ⟨s, 0⟩ (allowanceFor s) (Nat.le_refl _)
  have answer : SameAnswer (parseType s) (parseType s) := by
    refine SameAnswer.bind whole ?_
    rintro ⟨type, last⟩ -
    dsimp only
    split
    · exact sameAnswer_ok _
    · split
      · exact sameAnswer_ok _
      · exact sameAnswer_error (by simp)
  exact answer.2

/-- Each reader goes on and comes to an end: those of types and of all that is joined by `|`, by
`&` or by nothing, those of the items of lists, and those of the lists. So no text is too deep for
`parseType`. -/
theorem readers_progress :
    Progresses readUnion ∧
      Progresses (fun allowance => conjunction (readTerm allowance) allowance) ∧
      Progresses readTerm ∧
      Progresses (fun allowance => atom (readUnion allowance) (readTerm allowance) allowance) ∧
      Progresses (fun allowance => typeArgument (readUnion allowance)) ∧
      Progresses (fun allowance => shapeEntry (readUnion allowance)) ∧
      Progresses (fun allowance => parameter (readUnion allowance)) ∧
      (∀ close, Progresses fun allowance =>
        listUntil (typeArgument (readUnion allowance)) close allowance) ∧
      (∀ close, Progresses fun allowance =>
        listUntil (shapeEntry (readUnion allowance)) close allowance) ∧
      (∀ close, Progresses fun allowance =>
        listUntil (parameter (readUnion allowance)) close allowance) ∧
      ∀ s, parseType s ≠ .error .tooDeep := by
  refine ⟨progresses_union, progresses_conjunction, progresses_term, progresses_atom,
    progresses_typeArgument, progresses_shapeEntry, progresses_parameter, ?_, ?_, ?_,
    parseType_ne_tooDeep⟩
  · exact progresses_typeArgument.list
  · exact progresses_shapeEntry.list
  · exact progresses_parameter.list

end DocSig.DocType
