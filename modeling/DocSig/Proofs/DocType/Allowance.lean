import DocSig.Proofs.DocType.Mirrors

/-!
How much allowance reading a type needs.

A reader calls the others behind what it has taken, so two steps for each character that is left
are enough. `Agree` compares a reader at two allowances on all texts shorter than a bound: neither
runs out, and both give the same answer, be it a tree or a fault. It passes from the readers of the
parts to the readers of the whole, at one character more where a mark is taken first.
-/

set_option autoImplicit false

namespace DocSig.DocType

variable {α β γ : Type} {bound : Nat}

/-- One answer, and it is not that brackets nest too deep. -/
def SameAnswer (x y : Except TypeFault α) : Prop := x = y ∧ x ≠ .error .tooDeep

/-- On texts shorter than `bound` the readers give the same answers and do not run out. -/
def Agree (bound : Nat) (reader other : Reader α) : Prop :=
  ∀ here : Cursor, here.rest.length < bound → SameAnswer (reader here) (other here)

theorem Agree.mono {less : Nat} {reader other : Reader α} (agree : Agree bound reader other)
    (within : less ≤ bound) : Agree less reader other :=
  fun here short => agree here (Nat.lt_of_lt_of_le short within)

theorem sameAnswer_ok (x : α) : SameAnswer (.ok x) (.ok x) := ⟨rfl, by simp⟩

theorem sameAnswer_error {fault : TypeFault} (other : fault ≠ .tooDeep) :
    SameAnswer (α := α) (.error fault) (.error fault) :=
  ⟨rfl, fun same => other (Except.error.inj same)⟩

/-- One step after another. -/
theorem SameAnswer.bind {x y : Except TypeFault α} {next next' : α → Except TypeFault β}
    (same : SameAnswer x y) (onward : ∀ a, x = .ok a → SameAnswer (next a) (next' a)) :
    SameAnswer (x >>= next) (y >>= next') := by
  obtain ⟨rfl, deep⟩ := same
  cases x with
  | error fault => exact sameAnswer_error fun same => deep (congrArg _ same)
  | ok a => exact onward a rfl

theorem sameAnswer_expect (wanted : Char) (here : Cursor) :
    SameAnswer (expect wanted here) (expect wanted here) := by
  unfold expect
  split
  · exact sameAnswer_error (by simp)
  · split
    · exact sameAnswer_ok _
    · exact sameAnswer_error (by simp)

theorem Takes.length_lt {reader : Reader α} (takes : Takes reader) {here there : Cursor} {x : α}
    (read : reader here = .ok (x, there)) : there.rest.length < here.rest.length :=
  (takes _ _ _ read).2.length_lt

theorem expect_length_lt {wanted : Char} {here there : Cursor}
    (read : expect wanted here = .ok there) : there.rest.length < here.rest.length := by
  have within := (expect_takes read).2.length_le
  rwa [List.length_cons] at within

/-- Two readers one after the other. -/
theorem agree_then {first first' : Reader α} {second second' : Reader β} (combine : α → β → γ)
    (takes : Takes first) (one : Agree bound first first') (two : Agree bound second second') :
    Agree bound
      (fun here => do
        let (x, here) ← first here
        let (y, here) ← second here
        return (combine x y, here))
      (fun here => do
        let (x, here) ← first' here
        let (y, here) ← second' here
        return (combine x y, here)) := by
  intro here short
  refine (one here short).bind ?_
  rintro ⟨x, middle⟩ read
  have shorter := takes.length_lt read
  exact (two middle (by omega)).bind fun _ _ => sameAnswer_ok _

variable {member other : Reader DocType}

theorem agree_moreAlternatives (takes : Takes member) (allowance : Nat) :
    ∀ {bound allowance' : Nat}, bound ≤ allowance → bound ≤ allowance' →
      Agree bound member other →
      Agree bound (moreAlternatives member allowance) (moreAlternatives other allowance') := by
  induction allowance with
  | zero =>
      intro bound _ enough _ _ here short
      omega
  | succ allowance ih =>
      rintro bound allowance' enough enough' agree ⟨text, depth⟩ short
      obtain ⟨allowance', rfl⟩ := Nat.exists_eq_succ_of_ne_zero (show allowance' ≠ 0 by omega)
      have front := (behindSeparators_suffix depth text).length_le
      dsimp only at short
      simp only [moreAlternatives, skipSeparators_eq]
      split
      · next rest mark =>
          have behind := (behindSeparators_suffix depth rest).length_le
          rw [mark, List.length_cons] at front
          split
          · exact sameAnswer_error (by simp)
          · have less : Agree (bound - 1) member other := agree.mono (Nat.sub_le bound 1)
            exact agree_then List.cons takes less (ih (by omega) (by omega) less)
              ⟨behindSeparators depth rest, depth⟩ (by dsimp only; omega)
      · exact sameAnswer_ok _

theorem agree_moreConjuncts (takes : Takes member) (allowance : Nat) :
    ∀ {bound allowance' : Nat}, bound ≤ allowance → bound ≤ allowance' →
      Agree bound member other →
      Agree bound (moreConjuncts member allowance) (moreConjuncts other allowance') := by
  induction allowance with
  | zero =>
      intro bound _ enough _ _ here short
      omega
  | succ allowance ih =>
      rintro bound allowance' enough enough' agree ⟨text, depth⟩ short
      obtain ⟨allowance', rfl⟩ := Nat.exists_eq_succ_of_ne_zero (show allowance' ≠ 0 by omega)
      have front := (behindSeparators_suffix depth text).length_le
      dsimp only at short
      simp only [moreConjuncts, skipSeparators_eq]
      split
      · next rest mark =>
          have behind := (behindSeparators_suffix depth rest).length_le
          rw [mark, List.length_cons] at front
          split
          · exact sameAnswer_ok _
          · have less : Agree (bound - 1) member other := agree.mono (Nat.sub_le bound 1)
            exact agree_then List.cons takes less (ih (by omega) (by omega) less)
              ⟨behindSeparators depth rest, depth⟩ (by dsimp only; omega)
      · exact sameAnswer_ok _

theorem agree_alternation {allowance allowance' : Nat} (takes : Takes member)
    (enough : bound ≤ allowance) (enough' : bound ≤ allowance') (agree : Agree bound member other) :
    Agree bound (alternation member allowance) (alternation other allowance') :=
  agree_then unionOf takes agree (agree_moreAlternatives takes allowance enough enough' agree)

theorem agree_conjunction {allowance allowance' : Nat} (takes : Takes member)
    (enough : bound ≤ allowance) (enough' : bound ≤ allowance') (agree : Agree bound member other) :
    Agree bound (conjunction member allowance) (conjunction other allowance') :=
  agree_then intersectionOf takes agree (agree_moreConjuncts takes allowance enough enough' agree)

theorem agree_arrayed (agree : Agree bound member other) :
    Agree bound (arrayed member) (arrayed other) :=
  fun here short => (agree here short).bind fun _ _ => sameAnswer_ok _

theorem agree_listUntil {item item' : Reader α} (close : Char) (shortens : Shortens item)
    (allowance : Nat) :
    ∀ {bound allowance' : Nat}, bound ≤ allowance → bound ≤ allowance' →
      Agree bound item item' →
      Agree bound (listUntil item close allowance) (listUntil item' close allowance') := by
  induction allowance with
  | zero =>
      intro bound _ enough _ _ here short
      omega
  | succ allowance ih =>
      rintro bound allowance' enough enough' agree ⟨text, depth⟩ short
      obtain ⟨allowance', rfl⟩ := Nat.exists_eq_succ_of_ne_zero (show allowance' ≠ 0 by omega)
      have front := (trimStart_suffix text).length_le
      dsimp only at short
      simp only [listUntil, skipBlank_eq]
      split
      · exact sameAnswer_ok _
      · refine (agree ⟨text.trimStart, depth⟩ (by dsimp only; omega)).bind ?_
        rintro ⟨x, middle⟩ read
        have within := (shortens _ _ _ read).2.length_le
        have behind := (trimStart_suffix middle.rest).length_le
        dsimp only at within ⊢
        split
        · next rest comma =>
            rw [comma, List.length_cons] at behind
            refine (ih (show bound - 1 ≤ allowance by omega) (by omega) (agree.mono (by omega))
              ⟨rest, middle.depth⟩ (by dsimp only; omega)).bind ?_
            exact fun found _ => sameAnswer_ok _
        · exact (sameAnswer_expect close middle).bind fun _ _ => sameAnswer_ok _

variable {union union' term term' : Reader DocType}

theorem agree_grouped (takes : Takes union) (agree : Agree bound union union') :
    Agree bound (grouped union) (grouped union') := by
  rintro ⟨text, depth⟩ short
  have front := (trimStart_suffix text).length_le
  dsimp only at short
  simp only [grouped, skipBlank_eq]
  refine (agree ⟨text.trimStart, depth⟩ (by dsimp only; omega)).bind ?_
  rintro ⟨first, middle⟩ read
  have shorter := takes.length_lt read
  have blank := (trimStart_suffix middle.rest).length_le
  have word := (readName_suffix middle.rest.trimStart).length_le
  dsimp only at shorter ⊢
  split
  · -- each part of the condition is read of what the ones before it have left
    have behind := (trimStart_suffix (readName middle.rest.trimStart).2).length_le
    have mark := (readName_suffix (readName middle.rest.trimStart).2.trimStart).length_le
    refine (agree ⟨_, middle.depth⟩ (by dsimp only; split <;> omega)).bind ?_
    rintro ⟨target, second⟩ read
    have shorter := takes.length_lt read
    have within : second.rest.length < bound := by
      dsimp only at shorter
      split at shorter <;> omega
    refine (sameAnswer_expect '?' second).bind ?_
    intro third read
    have shorter := expect_length_lt read
    refine (agree third (by omega)).bind ?_
    rintro ⟨positive, fourth⟩ read
    have shorter := takes.length_lt read
    refine (sameAnswer_expect ':' fourth).bind ?_
    intro fifth read
    have shorter := expect_length_lt read
    refine (agree fifth (by omega)).bind ?_
    rintro ⟨negative, sixth⟩ _
    exact (sameAnswer_expect ')' sixth).bind fun _ _ => sameAnswer_ok _
  · exact (sameAnswer_expect ')' middle).bind fun _ _ => sameAnswer_ok _

theorem agree_typeArgument (agree : Agree bound union union') :
    Agree bound (typeArgument union) (typeArgument union') := by
  rintro ⟨text, depth⟩ short
  have front := (trimStart_suffix text).length_le
  dsimp only at short
  simp only [typeArgument]
  split
  · exact sameAnswer_ok _
  · have word := (readName_suffix text.trimStart).length_le
    have behind := (trimStart_suffix (readName text.trimStart).2).length_le
    split
    · exact agree _ (by dsimp only; omega)
    · exact agree _ (by dsimp only; omega)

theorem agree_shapeEntry (agree : Agree bound union union') :
    Agree bound (shapeEntry union) (shapeEntry union') := by
  rintro ⟨text, depth⟩ short
  have front := (trimStart_suffix text).length_le
  dsimp only at short
  simp only [shapeEntry]
  split
  · exact sameAnswer_ok _
  · split
    · next key isOptional rest found =>
        have behind := (readKeyed_suffix found).length_le
        exact (agree ⟨rest, depth⟩ (by dsimp only; omega)).bind fun _ _ => sameAnswer_ok _
    · exact (agree ⟨text.trimStart, depth⟩ (by dsimp only; omega)).bind fun _ _ => sameAnswer_ok _

theorem agree_parameter (agree : Agree bound union union') :
    Agree bound (parameter union) (parameter union') :=
  fun here short => (agree here short).bind fun _ _ => sameAnswer_ok _

theorem agree_named {allowance allowance' : Nat} (takes : Takes union) (enough : bound ≤ allowance)
    (enough' : bound ≤ allowance') (agreeUnion : Agree bound union union')
    (agreeTerm : Agree bound term term') :
    Agree (bound + 1) (named union term allowance) (named union' term' allowance') := by
  rintro ⟨text, depth⟩ short
  have word := (readName_suffix text).length_le
  dsimp only at short
  simp only [named, Cursor.enter]
  split
  · exact sameAnswer_error (by simp)
  · split
    · split
      · exact sameAnswer_error (by simp)
      · exact sameAnswer_ok _
    · next rest mark =>
        rw [mark, List.length_cons] at word
        refine (agree_listUntil '>' (takes_typeArgument takes).shortens allowance enough enough'
          (agree_typeArgument agreeUnion) ⟨rest, depth + 1⟩ (by dsimp only; omega)).bind ?_
        rintro ⟨arguments, last⟩ _
        dsimp only
        split
        · exact sameAnswer_error (by simp)
        · exact sameAnswer_ok _
    · next rest mark =>
        rw [mark, List.length_cons] at word
        refine (agree_listUntil '\x7d' (takes_shapeEntry takes).shortens allowance enough enough'
          (agree_shapeEntry agreeUnion) ⟨rest, depth + 1⟩ (by dsimp only; omega)).bind ?_
        exact fun _ _ => sameAnswer_ok _
    · next inside mark =>
        rw [mark, List.length_cons] at word
        split
        · refine (agree_listUntil ')' (parameter_shortens takes) allowance enough enough'
            (agree_parameter agreeUnion) ⟨inside, depth + 1⟩ (by dsimp only; omega)).bind ?_
          rintro ⟨parameters, last⟩ read
          have taken := takes_listUntil ')' rfl (parameter_shortens takes) allowance
          have shorter := taken.length_lt read
          dsimp only at shorter ⊢
          split
          · next rest colon =>
              have behind := (behindSeparators_suffix last.leave.depth last.leave.rest).length_le
              have further := (behindSeparators_suffix last.leave.depth rest).length_le
              rw [show behindSeparators last.leave.depth last.leave.rest = ':' :: rest from colon,
                List.length_cons] at behind
              simp only [skipSeparators_eq]
              dsimp only [Cursor.leave] at behind further
              exact (agreeTerm ⟨behindSeparators last.leave.depth rest, last.leave.depth⟩
                (by dsimp only [Cursor.leave]; omega)).bind fun _ _ => sameAnswer_ok _
          · exact sameAnswer_ok _
        · exact sameAnswer_ok _
    · exact sameAnswer_ok _

theorem agree_atom {allowance allowance' : Nat} (takes : Takes union) (enough : bound ≤ allowance)
    (enough' : bound ≤ allowance') (agreeUnion : Agree bound union union')
    (agreeTerm : Agree bound term term') :
    Agree (bound + 1) (atom union term allowance) (atom union' term' allowance') := by
  intro here short
  have front := (atomStart_suffix here).length_le
  have start : (if 0 < here.depth then here.skipBlank else here) =
      ⟨atomStart here, here.depth⟩ := by
    unfold atomStart
    split <;> rfl
  simp only [atom, start]
  split
  · exact sameAnswer_error (by simp)
  · next c rest found =>
      have inside : rest.length < (atomStart here).length := by
        rw [found, List.length_cons]
        omega
      split
      · refine (agreeTerm ⟨rest, here.depth⟩ (by dsimp only; omega)).bind ?_
        exact fun _ _ => sameAnswer_ok _
      · split
        · exact (agree_grouped takes agreeUnion ⟨rest, here.depth + 1⟩
            (by dsimp only; omega)).bind fun _ _ => sameAnswer_ok _
        · split
          · split
            · exact sameAnswer_error (by simp)
            · exact sameAnswer_ok _
          · split
            · exact sameAnswer_ok _
            · split
              · exact agree_named takes enough enough' agreeUnion agreeTerm _ (by
                  dsimp only
                  omega)
              · exact sameAnswer_error (by simp)

/-- Twice the bound is enough for the texts below it. -/
theorem agree_types (bound : Nat) : ∀ allowance allowance' : Nat,
    (2 * bound ≤ allowance → 2 * bound ≤ allowance' →
      Agree bound (readUnion allowance) (readUnion allowance')) ∧
    (2 * bound ≤ allowance + 1 → 2 * bound ≤ allowance' + 1 →
      Agree bound (readTerm allowance) (readTerm allowance')) := by
  -- on the length of the text: a term takes a character before it reads another type
  induction bound with
  | zero => exact fun _ _ => ⟨fun _ _ _ short => absurd short (Nat.not_lt_zero _),
      fun _ _ _ short => absurd short (Nat.not_lt_zero _)⟩
  | succ bound ih =>
      have terms : ∀ allowance allowance' : Nat, 2 * (bound + 1) ≤ allowance + 1 →
          2 * (bound + 1) ≤ allowance' + 1 →
          Agree (bound + 1) (readTerm allowance) (readTerm allowance') := by
        intro allowance allowance' enough enough'
        obtain ⟨allowance, rfl⟩ := Nat.exists_eq_succ_of_ne_zero (show allowance ≠ 0 by omega)
        obtain ⟨allowance', rfl⟩ := Nat.exists_eq_succ_of_ne_zero (show allowance' ≠ 0 by omega)
        rw [readTerm, readTerm]
        exact agree_arrayed (agree_atom (takes_types allowance).1 (by omega) (by omega)
          ((ih allowance allowance').1 (by omega) (by omega))
          ((ih allowance allowance').2 (by omega) (by omega)))
      refine fun allowance allowance' => ⟨fun enough enough' => ?_, terms allowance allowance'⟩
      obtain ⟨allowance, rfl⟩ := Nat.exists_eq_succ_of_ne_zero (show allowance ≠ 0 by omega)
      obtain ⟨allowance', rfl⟩ := Nat.exists_eq_succ_of_ne_zero (show allowance' ≠ 0 by omega)
      have members := agree_conjunction (takes_types allowance).2
        (show bound + 1 ≤ allowance by omega) (show bound + 1 ≤ allowance' by omega)
        (terms allowance allowance' (by omega) (by omega))
      rw [readUnion, readUnion]
      exact agree_alternation (takes_conjunction (takes_types allowance).2 allowance) (by omega)
        (by omega) members

/-- Reading a type gives the same answer at all allowances of two steps for each character and two
more, and that is never that brackets nest too deep. -/
theorem sameAnswer_readUnion {here : Cursor} {allowance allowance' : Nat}
    (enough : 2 * here.rest.length + 2 ≤ allowance)
    (enough' : 2 * here.rest.length + 2 ≤ allowance') :
    SameAnswer (readUnion allowance here) (readUnion allowance' here) :=
  (agree_types (here.rest.length + 1) allowance allowance').1 (by omega) (by omega) here
    (Nat.lt_succ_self _)

/-- What `parseType` allows for a text is enough for it. -/
theorem readUnion_enough {s : Text} {allowance : Nat} (depth : Nat)
    (enough : allowanceFor s ≤ allowance) :
    readUnion allowance ⟨s, depth⟩ = readUnion (allowanceFor s) ⟨s, depth⟩ :=
  (sameAnswer_readUnion enough (Nat.le_refl _)).1

end DocSig.DocType
