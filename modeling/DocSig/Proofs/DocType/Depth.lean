import DocSig.Proofs.DocType.Mirrors

/-!
One run of a reader, and another one on the same text with one bracket more around it.

Within brackets the number of them has no part in what is read. Outside of all brackets two things
are different: a type starts at once there, and only spaces and tabs separate its parts. So a reader
does the same one bracket deeper (`Deepens`) if the text has no white space outside of ASCII, with
which a name could begin (`Narrow`), and if nothing but spaces and tabs stands before what is
visible behind the type (`Seen`). Wherever a reader goes on behind separators it has seen something
there, so only the end of the whole type has to be known.
-/

set_option autoImplicit false

namespace DocSig.DocType

variable {α β γ : Type}

/-- The same place with one bracket more around it. -/
def Cursor.deeper (here : Cursor) : Cursor := ⟨here.rest, here.depth + 1⟩

@[simp] theorem deeper_rest (here : Cursor) : here.deeper.rest = here.rest := rfl

@[simp] theorem deeper_depth (here : Cursor) : here.deeper.depth = here.depth + 1 := rfl

/-- Outside of brackets, all white space of what is left is within ASCII. -/
def Narrow (here : Cursor) : Prop :=
  here.depth = 0 → ∀ c ∈ here.rest, isBlank c = true → isAscii c = true

theorem Narrow.of_suffix {here there : Cursor} (narrow : Narrow here)
    (same : there.depth = here.depth) (within : there.rest <:+ here.rest) : Narrow there :=
  fun outside c found => narrow (same ▸ outside) c (within.subset found)

theorem narrow_inside {here : Cursor} (inside : 0 < here.depth) : Narrow here :=
  fun outside => absurd outside (Nat.ne_of_gt inside)

/-- What is seen behind separators is the same one bracket deeper. -/
def Seen (here : Cursor) : Prop :=
  behindSeparators (here.depth + 1) here.rest = behindSeparators here.depth here.rest

theorem seen_inside {here : Cursor} (inside : 0 < here.depth) : Seen here := by
  rw [Seen, behindSeparators_inside inside, behindSeparators_inside (Nat.succ_pos _)]

/-- All white space is passed over behind spaces and tabs as it is before them. -/
theorem trimStart_behindSeparators (depth : Nat) (s : Text) :
    (behindSeparators depth s).trimStart = s.trimStart := by
  have wider : ∀ c, separates depth c = true → isBlank c = true := by
    intro c passed
    unfold separates at passed
    split at passed
    · exact passed
    · exact isBlank_of_isSpaceOrTab passed
  rw [behindSeparators_eq]
  induction s with
  | nil => rfl
  | cons c s ih =>
      rw [List.dropWhile_cons]
      split
      · next passed => rw [ih, Text.trimStart_cons_blank c s (wider c passed)]
      · rfl

/-- Where something visible comes behind the separators, no bracket would show more. -/
theorem seen_of_stop {here : Cursor}
    (stop : StopsAt isBlank (behindSeparators here.depth here.rest)) : Seen here := by
  rw [Seen, behindSeparators_inside (Nat.succ_pos _), ← trimStart_behindSeparators here.depth,
    Text.trimStart_of_stopsAt _ stop]

theorem seen_of_mark {here : Cursor} {c : Char} {more : Text}
    (mark : behindSeparators here.depth here.rest = c :: more) (visible : isBlank c = false) :
    Seen here := by
  refine seen_of_stop ?_
  rw [mark, stopsAt_cons]
  exact visible

theorem seen_of_variable {here : Cursor}
    (starts : startsVariable (behindSeparators here.depth here.rest) = true) : Seen here := by
  refine seen_of_stop ?_
  cases found : behindSeparators here.depth here.rest with
  | nil => exact stopsAt_nil isBlank
  | cons c more =>
      rw [found, startsVariable, Bool.or_eq_true, beq_iff_eq, beq_iff_eq] at starts
      rw [stopsAt_cons]
      rcases starts with rfl | rfl <;> decide

/-- A reader does the same one bracket deeper. -/
def Deepens (reader : Reader α) : Prop :=
  ∀ here x there, reader here = .ok (x, there) → Narrow here → Seen there →
    reader here.deeper = .ok (x, there.deeper)

/-- A reader does the same within brackets, whatever their number. -/
def DeepensInside (reader : Reader α) : Prop :=
  ∀ here x there, reader here = .ok (x, there) → 0 < here.depth →
    reader here.deeper = .ok (x, there.deeper)

theorem Deepens.inside {reader : Reader α} (deepens : Deepens reader) (takes : Takes reader) :
    DeepensInside reader := by
  intro here x there read inside
  have same := (takes _ _ _ read).1
  exact deepens here x there read (narrow_inside inside) (seen_inside (same ▸ inside))

/-- Outside of brackets a reader starts with a character that may begin a type. -/
def Opens (reader : Reader α) : Prop :=
  ∀ here x, reader here = .ok x → here.depth = 0 →
    ∃ c more, here.rest = c :: more ∧ startsType c = true

theorem Opens.bind {first : Reader α} (opens : Opens first)
    (next : α × Cursor → Except TypeFault (β × Cursor)) :
    Opens fun here => first here >>= next := by
  intro here x read outside
  obtain ⟨found, one, -⟩ := bind_eq_ok.mp read
  exact opens here found one outside

theorem opens_atom (union term : Reader DocType) (allowance : Nat) :
    Opens (atom union term allowance) := by
  rintro ⟨rest, depth⟩ x read rfl
  exact atom_head read

theorem opens_readTerm (allowance : Nat) : Opens (readTerm allowance) := by
  cases allowance with
  | zero =>
      intro here x read
      cases read
  | succ allowance =>
      rw [readTerm]
      exact (opens_atom _ _ allowance).bind _

theorem opens_conjunction {member : Reader DocType} (opens : Opens member) (allowance : Nat) :
    Opens (conjunction member allowance) :=
  opens.bind _

theorem startsType_visible {c : Char} (starts : startsType c = true)
    (narrow : isBlank c = true → isAscii c = true) : isBlank c = false := by
  by_contra blank
  have blank : isBlank c = true := by simpa using blank
  rcases ascii_blank_cases c (narrow blank) blank with rfl | rfl | rfl | rfl | rfl | rfl <;>
    revert starts <;> decide

/-- Where a type starts outside of brackets, no white space comes first. -/
theorem Opens.stopsAt {reader : Reader α} (opens : Opens reader) {here : Cursor} {x : α × Cursor}
    (read : reader here = .ok x) (narrow : Narrow here) (outside : here.depth = 0) :
    StopsAt isBlank here.rest := by
  obtain ⟨c, more, starts, kind⟩ := opens here x read outside
  rw [starts, stopsAt_cons]
  exact startsType_visible kind (narrow outside c (starts ▸ List.mem_cons_self))

/-- A type behind separators is seen one bracket deeper as well. -/
theorem Opens.seen {reader : Reader α} (opens : Opens reader) {here : Cursor} {x : α × Cursor}
    (read : reader ⟨behindSeparators here.depth here.rest, here.depth⟩ = .ok x)
    (narrow : Narrow here) : Seen here := by
  rcases Nat.eq_zero_or_pos here.depth with outside | inside
  · have behind : Narrow ⟨behindSeparators here.depth here.rest, here.depth⟩ :=
      narrow.of_suffix rfl (behindSeparators_suffix here.depth here.rest)
    have solid := opens.stopsAt read behind outside
    exact seen_of_stop solid
  · exact seen_inside inside

/-- If a reader ends where what comes behind separators is seen, it starts at such a place. -/
def SeesBack (reader : Reader α) : Prop :=
  ∀ here x there, reader here = .ok (x, there) → Seen there → Seen here

theorem seesBack_moreAlternatives (member : Reader DocType) (allowance : Nat) :
    SeesBack (moreAlternatives member allowance) := by
  intro here types there read seen
  cases allowance with
  | zero => cases read
  | succ allowance =>
      cases moreAlternatives_ok_iff.mp read with
      | joined mark some first next => exact seen_of_mark mark (by decide)
      | ends stop => exact seen

theorem seesBack_moreConjuncts (member : Reader DocType) (allowance : Nat) :
    SeesBack (moreConjuncts member allowance) := by
  intro here types there read seen
  cases allowance with
  | zero => cases read
  | succ allowance =>
      cases moreConjuncts_ok_iff.mp read with
      | joined mark goesOn first next => exact seen_of_mark mark (by decide)
      | ends stop => exact seen

theorem deepens_then {first : Reader α} {second : Reader β} (combine : α → β → γ)
    (takes : Takes first) (sees : SeesBack second) (one : Deepens first) (two : Deepens second) :
    Deepens fun here => do
      let (x, here) ← first here
      let (y, here) ← second here
      return (combine x y, here) := by
  intro here z there read narrow seen
  obtain ⟨⟨x, middle⟩, readFirst, next⟩ := bind_eq_ok.mp read
  obtain ⟨⟨y, last⟩, readSecond, final⟩ := bind_eq_ok.mp next
  cases final
  obtain ⟨same, took⟩ := takes _ _ _ readFirst
  have firstAgain := one _ _ _ readFirst narrow (sees _ _ _ readSecond seen)
  have secondAgain := two _ _ _ readSecond (narrow.of_suffix same took.suffix) seen
  simp only [firstAgain, bind_ok, secondAgain]
  rfl

theorem Narrow.behind {here : Cursor} (narrow : Narrow here) {c : Char} {rest : Text}
    (mark : behindSeparators here.depth here.rest = c :: rest) : Narrow ⟨rest, here.depth⟩ :=
  narrow.of_suffix rfl
    ((List.suffix_cons c rest).trans (mark ▸ behindSeparators_suffix here.depth here.rest))

/-- A type behind separators, one bracket deeper. -/
theorem behind_deepens {member : Reader DocType} (opens : Opens member) (deepens : Deepens member)
    {here there : Cursor} {type : DocType} (narrow : Narrow here)
    (read : member ⟨behindSeparators here.depth here.rest, here.depth⟩ = .ok (type, there))
    (seen : Seen there) :
    behindSeparators (here.depth + 1) here.rest = behindSeparators here.depth here.rest ∧
      member ⟨behindSeparators (here.depth + 1) here.rest, here.depth + 1⟩ =
        .ok (type, there.deeper) := by
  have start := opens.seen read narrow
  have again := deepens _ _ _ read
    (narrow.of_suffix rfl (behindSeparators_suffix here.depth here.rest)) seen
  refine ⟨start, ?_⟩
  rw [start]
  exact again

/-- What follows a type behind separators is as narrow as what was before them. -/
theorem Takes.narrow {member : Reader α} (takes : Takes member) {here there : Cursor} {x : α}
    (read : member ⟨behindSeparators here.depth here.rest, here.depth⟩ = .ok (x, there))
    (narrow : Narrow here) : Narrow there := by
  obtain ⟨same, took⟩ := takes _ _ _ read
  exact narrow.of_suffix same (took.suffix.trans (behindSeparators_suffix here.depth here.rest))

theorem deepens_moreAlternatives {member : Reader DocType} (takes : Takes member)
    (opens : Opens member) (deepens : Deepens member) (allowance : Nat) :
    Deepens (moreAlternatives member allowance) := by
  induction allowance with
  | zero =>
      intro here types there read
      cases read
  | succ allowance ih =>
      intro here types there read narrow seen
      cases moreAlternatives_ok_iff.mp read with
      | joined mark some first next =>
          have start : Seen here := seen_of_mark mark (by decide)
          have narrow := narrow.behind mark
          obtain ⟨same, firstAgain⟩ := behind_deepens opens deepens narrow first
            (seesBack_moreAlternatives member allowance _ _ _ next seen)
          have nextAgain := ih _ _ _ next (takes.narrow first narrow) seen
          exact moreAlternatives_ok_iff.mpr
            (.joined (start.trans mark) (same ▸ some) firstAgain nextAgain)
      | ends stop =>
          exact moreAlternatives_ok_iff.mpr
            (.ends fun rest mark => stop rest (seen.symm.trans mark))

theorem deepens_moreConjuncts {member : Reader DocType} (takes : Takes member)
    (opens : Opens member) (deepens : Deepens member) (allowance : Nat) :
    Deepens (moreConjuncts member allowance) := by
  induction allowance with
  | zero =>
      intro here types there read
      cases read
  | succ allowance ih =>
      intro here types there read narrow seen
      cases moreConjuncts_ok_iff.mp read with
      | joined mark goesOn first next =>
          have start : Seen here := seen_of_mark mark (by decide)
          have narrow := narrow.behind mark
          obtain ⟨same, firstAgain⟩ := behind_deepens opens deepens narrow first
            (seesBack_moreConjuncts member allowance _ _ _ next seen)
          have nextAgain := ih _ _ _ next (takes.narrow first narrow) seen
          exact moreConjuncts_ok_iff.mpr
            (.joined (start.trans mark) (same ▸ goesOn) firstAgain nextAgain)
      | ends stop =>
          refine moreConjuncts_ok_iff.mpr (.ends fun rest mark => ?_)
          have byReference := stop rest (seen.symm.trans mark)
          have behind : Seen ⟨rest, here.depth⟩ := seen_of_variable byReference
          exact behind ▸ byReference

theorem deepens_alternation {member : Reader DocType} (takes : Takes member) (opens : Opens member)
    (deepens : Deepens member) (allowance : Nat) : Deepens (alternation member allowance) :=
  deepens_then unionOf takes (seesBack_moreAlternatives member allowance) deepens
    (deepens_moreAlternatives takes opens deepens allowance)

theorem deepens_conjunction {member : Reader DocType} (takes : Takes member) (opens : Opens member)
    (deepens : Deepens member) (allowance : Nat) : Deepens (conjunction member allowance) :=
  deepens_then intersectionOf takes (seesBack_moreConjuncts member allowance) deepens
    (deepens_moreConjuncts takes opens deepens allowance)

/-- Brackets behind a type are visible. -/
theorem seen_of_wrapArrays {type found : DocType} {here : Cursor} {rest : Text}
    (read : wrapArrays type here.rest = (found, rest)) (seen : Seen ⟨rest, here.depth⟩) :
    Seen here := by
  unfold wrapArrays at read
  split at read
  · next more bracket =>
      refine seen_of_stop ?_
      rw [bracket, behindSeparators_solid here.depth '[' _ (by decide), stopsAt_cons]
      decide
  · cases read
    exact seen

theorem deepens_arrayed {atom : Reader DocType} (deepens : Deepens atom) :
    Deepens (arrayed atom) := by
  intro here x there read narrow seen
  obtain ⟨type, middle, first, brackets, same⟩ := arrayed_ok_iff.mp read
  have firstAgain := deepens _ _ _ first narrow (seen_of_wrapArrays brackets (same ▸ seen))
  exact arrayed_ok_iff.mpr ⟨type, _, firstAgain, brackets, congrArg (· + 1) same⟩

theorem expect_deeper {wanted : Char} {here there : Cursor}
    (read : expect wanted here = .ok there) :
    expect wanted here.deeper = .ok there.deeper := by
  obtain ⟨mark, same⟩ := expect_ok_iff.mp read
  exact expect_ok_iff.mpr ⟨mark, congrArg (· + 1) same⟩

theorem deepens_listUntil {item : Reader α} (shortens : Shortens item)
    (deepens : DeepensInside item) (close : Char) (allowance : Nat) :
    DeepensInside (listUntil item close allowance) := by
  induction allowance with
  | zero =>
      intro here xs there read
      cases read
  | succ allowance ih =>
      intro here xs there read inside
      cases listUntil_ok_iff.mp read with
      | closed mark => exact listUntil_ok_iff.mpr (.closed mark)
      | more goesOn first comma next =>
          have same := (shortens _ _ _ first).1
          exact listUntil_ok_iff.mpr (.more goesOn (deepens _ _ _ first inside) comma
            (ih _ _ _ next (same ▸ inside)))
      | last goesOn first noComma ended =>
          exact listUntil_ok_iff.mpr
            (.last goesOn (deepens _ _ _ first inside) noComma (expect_deeper ended))

theorem deepens_grouped {union : Reader DocType} (takes : Takes union)
    (deepens : DeepensInside union) : DeepensInside (grouped union) := by
  intro here x there read inside
  cases grouped_ok_iff.mp read with
  | plain first noWord close =>
      exact grouped_ok_iff.mpr (.plain (deepens _ _ _ first inside) noWord (expect_deeper close))
  | condition first word two mark three colon four close =>
      -- each part is at the depth of the first one
      have atFirst := (takes _ _ _ first).1
      have atSecond := (takes _ _ _ two).1.trans atFirst
      have atThird := (expect_takes mark).1.trans atSecond
      have atFourth := (takes _ _ _ three).1.trans atThird
      have atFifth := (expect_takes colon).1.trans atFourth
      exact grouped_ok_iff.mpr (.condition (deepens _ _ _ first inside) word
        (deepens _ _ _ two (atFirst ▸ inside)) (expect_deeper mark)
        (deepens _ _ _ three (atThird ▸ inside)) (expect_deeper colon)
        (deepens _ _ _ four (atFifth ▸ inside)) (expect_deeper close))

theorem deepens_typeArgument {union : Reader DocType} (deepens : DeepensInside union) :
    DeepensInside (typeArgument union) := by
  intro here x there read inside
  cases typeArgument_ok_iff.mp read with
  | star mark => exact typeArgument_ok_iff.mpr (.star mark)
  | type noStar read => exact typeArgument_ok_iff.mpr (.type noStar (deepens _ _ _ read inside))

theorem deepens_shapeEntry {union : Reader DocType} (deepens : DeepensInside union) :
    DeepensInside (shapeEntry union) := by
  intro here x there read inside
  cases shapeEntry_ok_iff.mp read with
  | dots mark => exact shapeEntry_ok_iff.mpr (.dots mark)
  | keyed noDots found read =>
      exact shapeEntry_ok_iff.mpr (.keyed noDots found (deepens _ _ _ read inside))
  | bare noDots noKey read =>
      exact shapeEntry_ok_iff.mpr (.bare noDots noKey (deepens _ _ _ read inside))

theorem deepens_parameter {union : Reader DocType} (deepens : DeepensInside union) :
    DeepensInside (parameter union) := by
  intro here x there read inside
  obtain ⟨middle, one, rfl⟩ := parameter_ok_iff.mp read
  exact parameter_ok_iff.mpr ⟨_, deepens _ _ _ one inside, rfl⟩

/-- What closes a list leads back to the brackets around it. -/
theorem leave_deeper {here : Cursor} (inside : 0 < here.depth) :
    here.deeper.leave = here.leave.deeper :=
  congrArg (Cursor.mk here.rest) (show here.depth + 1 - 1 = here.depth - 1 + 1 by omega)

/-- A list in brackets behind a name, one bracket deeper. -/
theorem list_deeper {item : Reader α} (shortens : Shortens item) (deepens : DeepensInside item)
    {close : Char} (visible : isBlank close = false) {allowance depth : Nat} {last : Cursor}
    {more : Text} {xs : List α}
    (read : listUntil item close allowance ⟨more, depth + 1⟩ = .ok (xs, last)) :
    listUntil item close allowance ⟨more, depth + 1 + 1⟩ = .ok (xs, last.deeper) ∧
      last.deeper.leave = last.leave.deeper ∧ last.leave.depth = depth ∧ last.rest <:+ more := by
  obtain ⟨same, took⟩ := takes_listUntil close visible shortens allowance _ _ _ read
  have same : last.depth = depth + 1 := same
  refine ⟨deepens_listUntil shortens deepens close allowance _ _ _ read (Nat.succ_pos _),
    leave_deeper (by omega), ?_, took.suffix⟩
  rw [Cursor.leave, same, Nat.add_sub_cancel]

theorem NameRun.deeper {union term : Reader DocType} (takesUnion : Takes union)
    (deepensUnion : Deepens union) (opensTerm : Opens term) (deepensTerm : Deepens term)
    {allowance depth : Nat} {base s : Text} {there : Cursor} {x : DocType}
    (run : NameRun union term allowance base depth s x there) (narrow : Narrow ⟨s, depth⟩)
    (seen : Seen there) : NameRun union term allowance base (depth + 1) s x there.deeper := by
  have inner := deepensUnion.inside takesUnion
  cases run with
  | constant some => exact .constant some
  | generic list some =>
      obtain ⟨again, left, -⟩ := list_deeper (takes_typeArgument takesUnion).shortens
        (deepens_typeArgument inner) (by decide) list
      exact left ▸ .generic again some
  | shape list =>
      obtain ⟨again, left, -⟩ := list_deeper (takes_shapeEntry takesUnion).shortens
        (deepens_shapeEntry inner) (by decide) list
      exact left ▸ .shape again
  | @function more rest _ _ last _ callable list colon read =>
      obtain ⟨again, left, same, within⟩ := list_deeper (parameter_shortens takesUnion)
        (deepens_parameter inner) (by decide) list
      have narrow : Narrow last.leave :=
        narrow.of_suffix same (within.trans (List.suffix_cons '(' more))
      have start : Seen last.leave := seen_of_mark colon (by decide)
      obtain ⟨-, readAgain⟩ :=
        behind_deepens opensTerm deepensTerm (narrow.behind colon) read seen
      have colonAgain : behindSeparators last.deeper.leave.depth last.deeper.leave.rest =
          ':' :: rest := left ▸ start.trans colon
      exact .function callable again colonAgain (left ▸ readAgain)
  | callable callable list noColon =>
      obtain ⟨again, left, -⟩ := list_deeper (parameter_shortens takesUnion)
        (deepens_parameter inner) (by decide) list
      refine left ▸ .callable callable again fun rest colon => noColon rest ?_
      rw [left] at colon
      exact seen.symm.trans colon
  | name noConstant noGeneric noShape noCall =>
      exact .name noConstant noGeneric noShape noCall

theorem AtomRun.deeper {union term : Reader DocType} (takesUnion : Takes union)
    (deepensUnion : Deepens union) (opensTerm : Opens term) (deepensTerm : Deepens term)
    {allowance depth : Nat} {s : Text} {there : Cursor} {x : DocType}
    (run : AtomRun union term allowance depth s x there) (narrow : Narrow ⟨s, depth⟩)
    (seen : Seen there) : AtomRun union term allowance (depth + 1) s x there.deeper := by
  cases run with
  | nullable read =>
      exact .nullable (deepensTerm _ _ _ read
        (narrow.of_suffix rfl (List.suffix_cons '?' _)) seen)
  | group read =>
      have same := (takes_grouped takesUnion _ _ _ read).1
      have again := deepens_grouped takesUnion (deepensUnion.inside takesUnion) _ _ _ read
        (Nat.succ_pos depth)
      have left := leave_deeper (Nat.lt_of_lt_of_eq (Nat.succ_pos depth) same.symm)
      exact left ▸ .group again
  | quoted quote read => exact .quoted quote read
  | number starts => exact .number starts
  | @name c s _ _ start read =>
      obtain ⟨complete, run⟩ := named_ok_iff.mp read
      have narrow : Narrow ⟨(readName (c :: s)).2, depth⟩ :=
        narrow.of_suffix rfl (readName_suffix (c :: s))
      exact .name start (named_ok_iff.mpr
        ⟨complete, run.deeper takesUnion deepensUnion opensTerm deepensTerm narrow seen⟩)

theorem deepens_atom {union term : Reader DocType} (takesUnion : Takes union)
    (deepensUnion : Deepens union) (opensTerm : Opens term) (deepensTerm : Deepens term)
    (allowance : Nat) : Deepens (atom union term allowance) := by
  intro here x there read narrow seen
  have run := atom_ok_iff.mp read
  -- the white space before an atom is passed over in both runs, or there is none
  have start : atomStart here.deeper = atomStart here := by
    rcases Nat.eq_zero_or_pos here.depth with outside | inside
    · have solid := (opens_atom union term allowance).stopsAt read narrow outside
      rw [atomStart, atomStart, if_pos (show 0 < here.deeper.depth from Nat.succ_pos _),
        if_neg (by omega)]
      exact Text.trimStart_of_stopsAt here.rest solid
    · rw [atomStart, atomStart, if_pos (show 0 < here.deeper.depth from Nat.succ_pos _),
        if_pos inside]
      rfl
  refine atom_ok_iff.mpr (start ▸ run.deeper takesUnion deepensUnion opensTerm deepensTerm ?_ seen)
  exact narrow.of_suffix rfl (atomStart_suffix here)

theorem deepens_types (allowance : Nat) :
    Deepens (readUnion allowance) ∧ Deepens (readTerm allowance) := by
  -- the two readers call each other with one less of the allowance
  induction allowance with
  | zero =>
      refine ⟨?_, ?_⟩
      · intro here x there read
        cases read
      · intro here x there read
        cases read
  | succ allowance ih =>
      obtain ⟨takesUnion, takesTerm⟩ := takes_types allowance
      refine ⟨?_, ?_⟩
      · rw [readUnion]
        have opens := opens_readTerm allowance
        exact deepens_alternation (takes_conjunction takesTerm allowance)
          (opens_conjunction opens allowance)
          (deepens_conjunction takesTerm opens ih.2 allowance) allowance
      · rw [readTerm]
        exact deepens_arrayed
          (deepens_atom takesUnion ih.1 (opens_readTerm allowance) ih.2 allowance)

end DocSig.DocType
