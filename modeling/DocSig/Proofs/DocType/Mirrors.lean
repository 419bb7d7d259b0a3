import DocSig.Proofs.DocType.Cuts

/-!
Two runs of a reader, on texts that differ in what follows a type.

One text is `p ++ u` and the other one `p ++ v`. A reader is mirrored (`Mirrors`) if, whenever one
run reads up to `q ++ u`, the other one reads the same up to `q ++ v`. A reader looks behind what it
takes, so there must be something in `q` that it sees first (`Settled`), or nothing in `v` that it
could take for the continuation of a type: of a member of a union (`Calm`), or of a whole union
(`Unbarred` as well, for which `EndsUnion` asks). The other run may have another allowance, which is
enough if it is measured by what the first run took.
-/

set_option autoImplicit false

namespace DocSig.DocType

variable {p q k u v : Text}

/-- The white space that may stand between the parts of a type. -/
def separates (depth : Nat) : Char → Bool := if 0 < depth then isBlank else isSpaceOrTab

theorem behindSeparators_eq (depth : Nat) (s : Text) :
    behindSeparators depth s = s.dropWhile (separates depth) := by
  unfold behindSeparators Cursor.skipSeparators separates
  split <;> rfl

theorem behindSeparators_inside {depth : Nat} (inside : 0 < depth) (s : Text) :
    behindSeparators depth s = s.trimStart := by
  rw [behindSeparators_eq, separates, if_pos inside]
  rfl

theorem behindSeparators_swap {depth : Nat} (cut : behindSeparators depth (p ++ u) = k ++ u)
    (some : k ≠ []) : behindSeparators depth (p ++ v) = k ++ v := by
  rw [behindSeparators_eq] at cut ⊢
  exact (dropWhile_swap cut fun empty => absurd empty some).1

theorem behindSeparators_append {depth : Nat} (some : behindSeparators depth q ≠ []) (w : Text) :
    behindSeparators depth (q ++ w) = behindSeparators depth q ++ w := by
  rw [behindSeparators_eq] at some ⊢
  rw [behindSeparators_eq, List.dropWhile_append, if_neg (by simpa using some)]

theorem behindSeparators_of_append {depth : Nat} (cut : behindSeparators depth (p ++ u) = k ++ u)
    (some : k ≠ []) : behindSeparators depth p = k := by
  have bare := behindSeparators_swap (v := []) cut some
  simpa using bare

/-- What a reader sees behind a type is decided by `q`: there is more than separators, and more
behind an `&`. -/
structure Settled (depth : Nat) (q : Text) : Prop where
  some : behindSeparators depth q ≠ []
  further : ∀ more, behindSeparators depth q = '&' :: more → behindSeparators depth more ≠ []

/-- The end of a type: what is behind it is settled, or it is all that there is outside of
brackets. -/
def Ends (depth : Nat) (q : Text) : Prop := Settled depth q ∨ (q = [] ∧ depth = 0)

/-- A text that may follow a type and does not go on with it. -/
structure Quiet (v : Text) : Prop where
  harmless : Harmless v
  unmarked : ∀ c ∈ (v.dropWhile isSpaceOrTab).head?, c ≠ '|' ∧ c ≠ '&' ∧ c ≠ ':'

/-- A text that stands apart from a member of a union before it and does not go on with it: it
gives no result, and an `&` that it begins with passes a variable by reference. -/
structure Calm (v : Text) : Prop where
  apart : Apart v
  noResult : ∀ c ∈ (v.dropWhile isSpaceOrTab).head?, c ≠ ':'
  byReference : ∀ more, v.dropWhile isSpaceOrTab = '&' :: more →
    startsVariable (more.dropWhile isSpaceOrTab) = true

/-- A text that goes on with no union before it. -/
def Unbarred (v : Text) : Prop := ∀ c ∈ (v.dropWhile isSpaceOrTab).head?, c ≠ '|'

/-- A text that stands apart from a type before it and does not go on with it. -/
structure Still (v : Text) : Prop extends Calm v where
  unbarred : Unbarred v

/-- Without an `&` no variable is passed. -/
theorem Apart.calm (apart : Apart v)
    (unmarked : ∀ c ∈ (v.dropWhile isSpaceOrTab).head?, c ≠ '&' ∧ c ≠ ':') : Calm v where
  apart := apart
  noResult c found := (unmarked c found).2
  byReference _ found := absurd rfl (unmarked '&' (congrArg List.head? found)).1

theorem Quiet.still (quiet : Quiet v) : Still v where
  toCalm := quiet.harmless.apart.calm fun c found => (quiet.unmarked c found).2
  unbarred c found := (quiet.unmarked c found).1

theorem calm_nil : Calm [] := Apart.calm (by simp [Apart]) (by simp)

/-- What comes behind a member of a union: the mark before the next one, or what closes the list
that the union is in. -/
theorem calm_mark {c : Char} (mark : isCloser c = true ∨ c = '|') (rest : Text) :
    Calm (c :: rest) := by
  refine Apart.calm (fun d found => ?_) (fun d found => ?_)
  · cases found
    rcases mark with closer | rfl
    · rw [isBreak, closer, Bool.or_true, Bool.true_or]
    · decide
  · rcases mark.imp_left isCloser_cases with (rfl | rfl | rfl | rfl) | rfl <;>
    · cases found
      decide

/-- What closes the list that a type is in. -/
theorem still_closer {c : Char} (closer : isCloser c = true) (rest : Text) : Still (c :: rest) := by
  refine ⟨calm_mark (Or.inl closer) rest, fun d found => ?_⟩
  rcases isCloser_cases closer with rfl | rfl | rfl | rfl <;>
  · cases found
    decide

/-- Within brackets, a visible character other than `&` settles what is before it. -/
theorem settled_of_anchor {depth : Nat} {c : Char} {more : Text} (inside : 0 < depth)
    (anchor : c :: more <:+ q) (visible : isBlank c = false) (other : c ≠ '&') :
    Settled depth q := by
  have behind : ∀ {s : Text}, c :: more <:+ s → c :: more <:+ behindSeparators depth s := by
    intro s within
    rw [behindSeparators_inside inside]
    exact suffix_dropWhile visible within
  refine ⟨ne_nil_of_suffix (behind anchor) (List.cons_ne_nil c more), ?_⟩
  intro rest found
  have within : c :: more <:+ '&' :: rest := found ▸ behind anchor
  exact ne_nil_of_suffix (behind (suffix_of_cons_ne other within)) (List.cons_ne_nil c more)

theorem settled_of_mark {depth : Nat} {c : Char} {more : Text}
    (found : behindSeparators depth q = c :: more)
    (later : c = '&' → behindSeparators depth more ≠ []) : Settled depth q where
  some := by
    rw [found]
    exact List.cons_ne_nil c more
  further := by
    intro rest same
    rw [found] at same
    cases same
    exact later rfl

/-- The end of a union, if `v` comes behind it: what is behind it is settled, or it is all that
there is outside of brackets, and `v` does not go on with it. -/
def EndsUnion (v : Text) (depth : Nat) (q : Text) : Prop :=
  Settled depth q ∨ ((q = [] ∧ depth = 0) ∧ Unbarred v)

theorem EndsUnion.ends {depth : Nat} (ended : EndsUnion v depth q) : Ends depth q :=
  ended.imp_right And.left

theorem Ends.union {depth : Nat} (ends : Ends depth q) (unbarred : Unbarred v) :
    EndsUnion v depth q :=
  ends.imp_right fun whole => ⟨whole, unbarred⟩

/-- No mark that comes in with what mirrors is seen behind what is settled. -/
theorem Settled.no_mark {depth : Nat} (settled : Settled depth q) {c : Char}
    (stop : ∀ more, behindSeparators depth (q ++ u) ≠ c :: more) (more : Text) :
    behindSeparators depth (q ++ v) ≠ c :: more := by
  intro found
  rw [behindSeparators_append settled.some] at found
  rcases List.append_eq_cons_iff.mp found with ⟨empty, -⟩ | ⟨rest, here, -⟩
  · exact settled.some empty
  · apply stop (rest ++ u)
    rw [behindSeparators_append settled.some, here]
    rfl

/-- What is seen outside of brackets behind spaces and tabs. -/
theorem head_of_behindSeparators {c : Char} {more : Text}
    (found : behindSeparators 0 ([] ++ v) = c :: more) : c ∈ (v.dropWhile isSpaceOrTab).head? := by
  rw [List.nil_append, behindSeparators_eq] at found
  exact congrArg List.head? found

/-- No further member comes in with what mirrors. -/
theorem EndsUnion.no_bar {depth : Nat} (ended : EndsUnion v depth q)
    (stop : ∀ more, behindSeparators depth (q ++ u) ≠ '|' :: more) (more : Text) :
    behindSeparators depth (q ++ v) ≠ '|' :: more := by
  rcases ended with settled | ⟨⟨rfl, rfl⟩, unbarred⟩
  · exact settled.no_mark stop more
  · exact fun found => unbarred '|' (head_of_behindSeparators found) rfl

/-- No result comes in with what mirrors. -/
theorem Ends.no_result {depth : Nat} (ends : Ends depth q) (calm : Calm v)
    (stop : ∀ more, behindSeparators depth (q ++ u) ≠ ':' :: more) (more : Text) :
    behindSeparators depth (q ++ v) ≠ ':' :: more := by
  rcases ends with settled | ⟨rfl, rfl⟩
  · exact settled.no_mark stop more
  · exact fun found => calm.noResult ':' (head_of_behindSeparators found) rfl

/-- An `&` behind the end of a type passes a variable by reference, with whatever mirrors. -/
theorem Ends.no_conjunct {depth : Nat} (ends : Ends depth q) (calm : Calm v)
    (stop : ∀ more, behindSeparators depth (q ++ u) = '&' :: more →
      startsVariable (behindSeparators depth more) = true)
    (more : Text) (found : behindSeparators depth (q ++ v) = '&' :: more) :
    startsVariable (behindSeparators depth more) = true := by
  rcases ends with settled | ⟨rfl, rfl⟩
  · rw [behindSeparators_append settled.some] at found
    rcases List.append_eq_cons_iff.mp found with ⟨empty, -⟩ | ⟨rest, here, rfl⟩
    · exact absurd empty settled.some
    · have further := settled.further rest here
      have before := stop (rest ++ u) (by
        rw [behindSeparators_append settled.some, here]
        rfl)
      rw [behindSeparators_append further] at before ⊢
      cases head : behindSeparators depth rest with
      | nil => exact absurd head further
      | cons c tail =>
          rw [head] at before
          exact before
  · rw [List.nil_append, behindSeparators_eq] at found
    rw [behindSeparators_eq]
    exact calm.byReference more found

/-- Whatever `reader` reads of a text before `u`, `other` reads before `v`, if it is at most
`limit` characters long and ends as it should. -/
def Mirrors {α : Type} (u v : Text) (ends : Nat → Text → Prop) (limit : Nat)
    (reader other : Reader α) : Prop :=
  ∀ (p q : Text) (depth depth' : Nat) (x : α),
    reader ⟨p ++ u, depth⟩ = .ok (x, ⟨q ++ u, depth'⟩) → ends depth q →
      p.length ≤ q.length + limit → other ⟨p ++ v, depth⟩ = .ok (x, ⟨q ++ v, depth'⟩)

/-- Whenever the reader succeeds it leaves a suffix and no bracket more or less. -/
def Shortens {α : Type} (reader : Reader α) : Prop :=
  ∀ here x there, reader here = .ok (x, there) →
    there.depth = here.depth ∧ there.rest <:+ here.rest

theorem Passes.shortens {α : Type} {reader : Reader α} (passes : Passes reader) :
    Shortens reader := by
  intro here x there read
  obtain ⟨same, rest | took⟩ := passes here x there read
  · exact ⟨same, rest ▸ List.suffix_refl _⟩
  · exact ⟨same, took.suffix⟩

theorem Took.length_lt {s rest : Text} (took : Took s rest) : rest.length < s.length := by
  obtain ⟨front, last, rfl, -⟩ := took
  simp only [List.length_append, List.length_cons]
  omega

variable {α β γ : Type} {limit : Nat}

/-- A reader that takes something takes more than no character. -/
theorem Takes.mirrors_zero {ends : Nat → Text → Prop} {reader other : Reader α}
    (takes : Takes reader) :
    Mirrors u v ends 0 reader other := by
  intro p q depth depth' x read _ short
  have shorter := (takes _ _ _ read).2.length_lt
  simp only [List.length_append] at shorter
  omega

/-- Where a reader ends if `q ++ u` is still to come behind it. -/
theorem Shortens.reach {reader : Reader α} (shortens : Shortens reader) {depth : Nat} {x : α}
    {there : Cursor} (read : reader ⟨p ++ u, depth⟩ = .ok (x, there))
    (left : q ++ u <:+ there.rest) : ∃ k, there = ⟨k ++ u, depth⟩ ∧ q <:+ k ∧ k <:+ p := by
  obtain ⟨rest, depth'⟩ := there
  obtain ⟨same, within⟩ := shortens _ _ _ read
  obtain ⟨k, rfl, behind⟩ := eq_append_of_suffix left
  exact ⟨k, congrArg (Cursor.mk (k ++ u)) same, behind, suffix_of_append within⟩

theorem Takes.reach {reader : Reader α} (takes : Takes reader) {depth : Nat} {x : α}
    {there : Cursor} (read : reader ⟨p ++ u, depth⟩ = .ok (x, there))
    (left : q ++ u <:+ there.rest) :
    ∃ k, there = ⟨k ++ u, depth⟩ ∧ q <:+ k ∧ k <:+ p ∧ k.length < p.length := by
  obtain ⟨k, rfl, behind, within⟩ := Shortens.reach takes.shortens read left
  have shorter := (takes _ _ _ read).2.length_lt
  simp only [List.length_append] at shorter
  exact ⟨k, rfl, behind, within, by omega⟩

theorem cursor_eq {depth depth' : Nat} (same : Cursor.mk (q ++ u) depth' = ⟨k ++ u, depth⟩) :
    q = k ∧ depth' = depth :=
  ⟨List.append_cancel_right (Cursor.mk.inj same).1, (Cursor.mk.inj same).2⟩

/-- If this is read up to a type's end, then what is before it ends a type as well. -/
def Settles (u : Text) (reader : Reader β) : Prop :=
  ∀ (k q : Text) (depth depth' : Nat) (y : β),
    reader ⟨k ++ u, depth⟩ = .ok (y, ⟨q ++ u, depth'⟩) → Ends depth q → Ends depth k

theorem mirrors_then {ends : Nat → Text → Prop} (within : ∀ {depth q}, ends depth q → Ends depth q)
    {first first' : Reader α} {second second' : Reader β} (combine : α → β → γ)
    (takes : Takes first) (passes : Passes second) (settles : Settles u second)
    (one : Mirrors u v Ends limit first first') (two : Mirrors u v ends limit second second') :
    Mirrors u v ends limit
      (fun here => do
        let (x, here) ← first here
        let (y, here) ← second here
        return (combine x y, here))
      (fun here => do
        let (x, here) ← first' here
        let (y, here) ← second' here
        return (combine x y, here)) := by
  intro p q depth depth' z read ended short
  obtain ⟨⟨x, middle⟩, readFirst, next⟩ := bind_eq_ok.mp read
  obtain ⟨⟨y, last⟩, readSecond, final⟩ := bind_eq_ok.mp next
  cases final
  obtain ⟨k, rfl, behind, shorter, -⟩ := takes.reach readFirst (passes.shortens _ _ _ readSecond).2
  have behind := behind.length_le
  have shorter := shorter.length_le
  have firstAgain := one p k depth depth x readFirst
    (settles _ _ _ _ _ readSecond (within ended)) (by omega)
  have secondAgain := two k q depth depth' y readSecond ended (by omega)
  simp only [firstAgain, bind_ok, secondAgain]
  rfl

/-- A type behind its mark, if `q ++ u` is still to come: where the mark and the type are. -/
theorem joined_reach {member : Reader DocType} (takes : Takes member) {rest : Text} {depth : Nat}
    {mark : Char} {type : DocType} {middle : Cursor}
    (found : behindSeparators depth (p ++ u) = mark :: rest)
    (first : member ⟨behindSeparators depth rest, depth⟩ = .ok (type, middle))
    (left : q ++ u <:+ middle.rest) :
    ∃ m n k, rest = m ++ u ∧ behindSeparators depth p = mark :: m ∧ behindSeparators depth m = n ∧
      n ≠ [] ∧ behindSeparators depth rest = n ++ u ∧ middle = ⟨k ++ u, depth⟩ ∧ q <:+ k ∧
      k <:+ n ∧ n.length < p.length := by
  have front : q ++ u <:+ behindSeparators depth rest :=
    left.trans (takes.shortens _ _ _ first).2
  obtain ⟨m, rfl, -⟩ := eq_append_of_suffix (front.trans (behindSeparators_suffix depth rest))
  obtain ⟨n, seen, -⟩ := eq_append_of_suffix front
  rw [seen] at first
  obtain ⟨k, rfl, behind, within, shorter⟩ := takes.reach first left
  have some : n ≠ [] := by
    rintro rfl
    cases shorter
  have here : behindSeparators depth p = mark :: m :=
    behindSeparators_of_append found (List.cons_ne_nil mark m)
  have inner : behindSeparators depth m = n := behindSeparators_of_append seen some
  have outerLength := (behindSeparators_suffix depth p).length_le
  have innerLength := (behindSeparators_suffix depth m).length_le
  rw [here, List.length_cons] at outerLength
  rw [inner] at innerLength
  exact ⟨m, n, k, rfl, here, inner, some, seen, rfl, behind, within, by omega⟩

/-- The same mark and the same type behind it, whatever follows. -/
theorem joined_swap {depth : Nat} {mark : Char} {m n : Text}
    (marked : behindSeparators depth p = mark :: m) (inner : behindSeparators depth m = n)
    (some : n ≠ []) (v : Text) :
    behindSeparators depth (p ++ v) = mark :: (m ++ v) ∧
      behindSeparators depth (m ++ v) = n ++ v := by
  constructor
  · rw [behindSeparators_append (by rw [marked]; exact List.cons_ne_nil _ _), marked]
    rfl
  · rw [behindSeparators_append (inner ▸ some), inner]

theorem settles_moreAlternatives {member : Reader DocType} (takes : Takes member)
    (allowance : Nat) : Settles u (moreAlternatives member allowance) := by
  intro k q depth depth' types read ended
  cases allowance with
  | zero => cases read
  | succ allowance =>
      generalize last : Cursor.mk (q ++ u) depth' = there at read
      cases moreAlternatives_ok_iff.mp read with
      | joined mark some first next =>
          subst last
          obtain ⟨m, _, _, -, marked, -⟩ := joined_reach takes mark first
            ((passes_moreAlternatives takes allowance).shortens _ _ _ next).2
          exact Or.inl (settled_of_mark marked fun mark => absurd mark (by decide))
      | ends stop => exact (cursor_eq last).1 ▸ ended

theorem mirrors_moreAlternatives {member other : Reader DocType} (takes : Takes member)
    (mirrors : Mirrors u v Ends limit member other) (allowance : Nat) :
    ∀ {less bound : Nat}, less ≤ limit → less < bound →
      Mirrors u v (EndsUnion v) less (moreAlternatives member allowance)
        (moreAlternatives other bound) := by
  induction allowance with
  | zero =>
      intro less bound _ _ p q depth depth' types read
      cases read
  | succ allowance ih =>
      intro less bound within enough p q depth depth' types read ended short
      obtain ⟨bound, rfl⟩ := Nat.exists_eq_succ_of_ne_zero (Nat.ne_of_gt (Nat.zero_lt_of_lt enough))
      generalize last : Cursor.mk (q ++ u) depth' = there at read
      cases moreAlternatives_ok_iff.mp read with
      | @joined rest type types _ _ mark _ first next =>
          subst last
          obtain ⟨m, n, k, rfl, marked, inner, some, seen, rfl, behind, further, shorter⟩ :=
            joined_reach takes mark first
              ((passes_moreAlternatives takes allowance).shortens _ _ _ next).2
          have behind := behind.length_le
          have further := further.length_le
          dsimp only at first
          rw [seen] at first
          have firstAgain := mirrors n k depth depth type first
            (settles_moreAlternatives takes allowance _ _ _ _ _ next ended.ends) (by omega)
          have nextAgain := ih (show less - 1 ≤ limit by omega) (show less - 1 < bound by omega) k q
            depth depth' types next ended (by omega)
          obtain ⟨markedAgain, onward⟩ := joined_swap marked inner some v
          refine moreAlternatives_ok_iff.mpr (.joined markedAgain ?_ ?_ nextAgain)
          · dsimp only
            rw [onward]
            exact List.append_ne_nil_of_left_ne_nil some v
          · dsimp only
            rw [onward]
            exact firstAgain
      | ends stop =>
          obtain ⟨rfl, rfl⟩ := cursor_eq last
          exact moreAlternatives_ok_iff.mpr (.ends (ended.no_bar stop))

theorem settles_moreConjuncts {member : Reader DocType} (takes : Takes member)
    (allowance : Nat) : Settles u (moreConjuncts member allowance) := by
  intro k q depth depth' types read ended
  cases allowance with
  | zero => cases read
  | succ allowance =>
      generalize last : Cursor.mk (q ++ u) depth' = there at read
      cases moreConjuncts_ok_iff.mp read with
      | joined mark goesOn first next =>
          subst last
          obtain ⟨m, n, _, -, marked, inner, some, -⟩ := joined_reach takes mark first
            ((passes_moreConjuncts takes allowance).shortens _ _ _ next).2
          exact Or.inl (settled_of_mark marked fun _ => inner ▸ some)
      | ends stop => exact (cursor_eq last).1 ▸ ended

theorem startsVariable_swap {n : Text} (some : n ≠ []) (u v : Text) :
    startsVariable (n ++ v) = startsVariable (n ++ u) := by
  cases n with
  | nil => exact absurd rfl some
  | cons c more => rfl

theorem mirrors_moreConjuncts (calm : Calm v) {member other : Reader DocType}
    (takes : Takes member) (mirrors : Mirrors u v Ends limit member other) (allowance : Nat) :
    ∀ {less bound : Nat}, less ≤ limit → less < bound →
      Mirrors u v Ends less (moreConjuncts member allowance) (moreConjuncts other bound) := by
  induction allowance with
  | zero =>
      intro less bound _ _ p q depth depth' types read
      cases read
  | succ allowance ih =>
      intro less bound within enough p q depth depth' types read ended short
      obtain ⟨bound, rfl⟩ := Nat.exists_eq_succ_of_ne_zero (Nat.ne_of_gt (Nat.zero_lt_of_lt enough))
      generalize last : Cursor.mk (q ++ u) depth' = there at read
      cases moreConjuncts_ok_iff.mp read with
      | @joined rest type types _ _ mark goesOn first next =>
          subst last
          obtain ⟨m, n, k, rfl, marked, inner, some, seen, rfl, behind, further, shorter⟩ :=
            joined_reach takes mark first
              ((passes_moreConjuncts takes allowance).shortens _ _ _ next).2
          have behind := behind.length_le
          have further := further.length_le
          dsimp only at first goesOn
          rw [seen] at first goesOn
          have firstAgain := mirrors n k depth depth type first
            (settles_moreConjuncts takes allowance _ _ _ _ _ next ended) (by omega)
          have nextAgain := ih (show less - 1 ≤ limit by omega) (show less - 1 < bound by omega) k q
            depth depth' types next ended (by omega)
          obtain ⟨markedAgain, onward⟩ := joined_swap marked inner some v
          refine moreConjuncts_ok_iff.mpr (.joined markedAgain ?_ ?_ nextAgain)
          · dsimp only
            rw [onward, startsVariable_swap some u v]
            exact goesOn
          · dsimp only
            rw [onward]
            exact firstAgain
      | ends stop =>
          obtain ⟨rfl, rfl⟩ := cursor_eq last
          exact moreConjuncts_ok_iff.mpr (.ends (ended.no_conjunct calm stop))

theorem mirrors_alternation {member other : Reader DocType} (takes : Takes member)
    (mirrors : Mirrors u v Ends limit member other) (allowance : Nat) {bound : Nat}
    (enough : limit < bound) :
    Mirrors u v (EndsUnion v) limit (alternation member allowance) (alternation other bound) :=
  mirrors_then EndsUnion.ends unionOf takes (passes_moreAlternatives takes allowance)
    (settles_moreAlternatives takes allowance) mirrors
    (mirrors_moreAlternatives takes mirrors allowance (Nat.le_refl limit) enough)

theorem mirrors_conjunction (calm : Calm v) {member other : Reader DocType}
    (takes : Takes member) (mirrors : Mirrors u v Ends limit member other) (allowance : Nat)
    {bound : Nat} (enough : limit < bound) :
    Mirrors u v Ends limit (conjunction member allowance) (conjunction other bound) :=
  mirrors_then id intersectionOf takes (passes_moreConjuncts takes allowance)
    (settles_moreConjuncts takes allowance) mirrors
    (mirrors_moreConjuncts calm takes mirrors allowance (Nat.le_refl limit) enough)

theorem wrapArrays_suffix {type found : DocType} {s rest : Text}
    (read : wrapArrays type s = (found, rest)) : rest <:+ s := by
  rcases wrapArrays_took type s with same | took
  · rw [read] at same
    exact suffix_of_eq same.symm
  · rw [read] at took
    exact took.suffix

theorem wrapArrays_swap (apart : Apart v) {type found : DocType}
    (read : wrapArrays type (p ++ u) = (found, q ++ u)) :
    wrapArrays type (p ++ v) = (found, q ++ v) := by
  generalize whole : p ++ u = s at read
  fun_induction wrapArrays type s generalizing p with
  | case1 type rest ih =>
      have left : q ++ u <:+ rest := wrapArrays_suffix read
      obtain ⟨m, rfl, -⟩ := eq_append_of_suffix left
      have here : p = '[' :: ']' :: m := List.append_cancel_right whole
      rw [here, List.cons_append, List.cons_append, wrapArrays_bracket]
      exact ih rfl read
  | case2 type rest other =>
      obtain ⟨rfl, same⟩ := Prod.mk.inj read
      have here : p = q := List.append_cancel_right (whole.trans same)
      subst here
      unfold wrapArrays
      split
      · next more bracket =>
          obtain ⟨m, rfl⟩ := eq_append_of_marks apart (forall_of_all (by decide))
            (show p ++ v = ['[', ']'] ++ more from bracket)
          exact absurd whole.symm (other (m ++ u))
      · rfl

/-- Brackets behind a type end it, as what is behind them does. -/
theorem ends_of_wrapArrays {type found : DocType} {depth : Nat} (ended : Ends depth q)
    (read : wrapArrays type (k ++ u) = (found, q ++ u)) : Ends depth k := by
  by_cases bracket : ∃ m, k = '[' :: m
  · obtain ⟨m, rfl⟩ := bracket
    exact Or.inl (settled_of_mark (behindSeparators_solid depth '[' m (by decide))
      fun mark => absurd mark (by decide))
  · have same : k = q := by
      cases k with
      | nil =>
          have left : q ++ u <:+ [] ++ u := wrapArrays_suffix read
          exact (List.suffix_nil.mp (suffix_of_append left)).symm
      | cons c m =>
          have other : c ≠ '[' := by
            rintro rfl
            exact bracket ⟨m, rfl⟩
          rw [wrapArrays_of_head type (c :: m ++ u) (by simpa using other)] at read
          exact List.append_cancel_right (Prod.mk.inj read).2
    exact same ▸ ended

theorem mirrors_arrayed (calm : Calm v) {atom other : Reader DocType} (takes : Takes atom)
    (mirrors : Mirrors u v Ends limit atom other) :
    Mirrors u v Ends limit (arrayed atom) (arrayed other) := by
  intro p q depth depth' x read ended short
  obtain ⟨type, middle, first, brackets, same⟩ := arrayed_ok_iff.mp read
  dsimp only at brackets same
  have left : q ++ u <:+ middle.rest := wrapArrays_suffix brackets
  obtain ⟨k, rfl, behind, within, -⟩ := takes.reach first left
  have behind := behind.length_le
  have firstAgain :=
    mirrors p k depth depth type first (ends_of_wrapArrays ended brackets) (by omega)
  exact arrayed_ok_iff.mpr ⟨type, _, firstAgain, wrapArrays_swap calm.apart brackets, same⟩

theorem expect_swap {wanted : Char} {depth : Nat} (found : (p ++ u).trimStart = wanted :: k ++ u) :
    expect wanted ⟨p ++ v, depth⟩ = .ok ⟨k ++ v, depth⟩ :=
  expect_of_mark (trimStart_swap found (List.cons_ne_nil wanted k))

/-- The end of an item within brackets: a mark that closes it. -/
def Closes (depth : Nat) (q : Text) : Prop :=
  0 < depth ∧ ∃ c more, q.trimStart = c :: more ∧ isCloser c = true

theorem Closes.settled {depth : Nat} (closes : Closes depth q) : Settled depth q := by
  obtain ⟨inside, c, more, found, closer⟩ := closes
  have anchor : c :: more <:+ q := found ▸ trimStart_suffix q
  rcases isCloser_cases closer with rfl | rfl | rfl | rfl <;>
    exact settled_of_anchor inside anchor (by decide) (by decide)

def Inside (depth : Nat) (_ : Text) : Prop := 0 < depth

/-- One item of a list, up to the mark that closes it. -/
theorem item_again {item other : Reader α} (shortens : Shortens item)
    (mirrors : Mirrors u v Closes limit item other) {depth : Nat} (inside : 0 < depth) {x : α}
    {middle : Cursor} {c : Char} {m : Text} (closer : isCloser c = true)
    (read : item ⟨(p ++ u).trimStart, depth⟩ = .ok (x, middle))
    (found : middle.rest.trimStart = c :: m ++ u) (short : p.length ≤ m.length + limit) :
    ∃ k, middle = ⟨k ++ u, depth⟩ ∧ m.length < p.length ∧
      (p ++ v).trimStart.head? = (p ++ u).trimStart.head? ∧
      other ⟨(p ++ v).trimStart, depth⟩ = .ok (x, ⟨k ++ v, depth⟩) ∧
      (k ++ v).trimStart = c :: m ++ v := by
  have left : c :: m ++ u <:+ middle.rest := found ▸ trimStart_suffix middle.rest
  obtain ⟨n, seen, -⟩ := eq_append_of_suffix (left.trans (shortens _ _ _ read).2)
  have seen : (p ++ u).trimStart = n ++ u := seen
  rw [seen] at read
  obtain ⟨k, rfl, behind, within⟩ := shortens.reach read left
  have some : n ≠ [] := ne_nil_of_suffix (behind.trans within) (List.cons_ne_nil c m)
  have closes : Closes depth k :=
    ⟨inside, c, m, trimStart_of_append found (List.cons_ne_nil c m), closer⟩
  have whole := (suffix_of_append (seen ▸ trimStart_suffix (p ++ u))).length_le
  have behind := behind.length_le
  have within := within.length_le
  rw [List.length_cons] at behind
  refine ⟨k, rfl, by omega, ?_, ?_, trimStart_swap found (List.cons_ne_nil c m)⟩
  · rw [seen, trimStart_swap seen some]
    cases n with
    | nil => exact absurd rfl some
    | cons d tail => rfl
  · rw [trimStart_swap seen some]
    exact mirrors n k depth depth x read closes (by omega)

theorem mirrors_listUntil {item other : Reader α} {close : Char} (closer : isCloser close = true)
    (shortens : Shortens item) (mirrors : Mirrors u v Closes limit item other) (allowance : Nat) :
    ∀ {less bound : Nat}, less ≤ limit → less ≤ bound →
      Mirrors u v Inside less (listUntil item close allowance) (listUntil other close bound) := by
  induction allowance with
  | zero =>
      intro less bound _ _ p q depth depth' types read
      cases read
  | succ allowance ih =>
      intro less bound within enough p q depth depth' xs read inside short
      have visible : isBlank close = false := by
        rcases isCloser_cases closer with rfl | rfl | rfl | rfl <;> decide
      have taken := (takes_listUntil close visible shortens (allowance + 1) _ _ _ read).2.length_lt
      simp only [List.length_append] at taken
      obtain ⟨bound, rfl⟩ := Nat.exists_eq_succ_of_ne_zero (show bound ≠ 0 by omega)
      generalize last : Cursor.mk (q ++ u) depth' = there at read
      cases listUntil_ok_iff.mp read with
      | closed mark =>
          cases last
          exact listUntil_ok_iff.mpr
            (.closed (trimStart_swap (k := close :: q) mark (List.cons_ne_nil close q)))
      | @more _ x xs _ _ goesOn first comma next =>
          subst last
          have left := (takes_listUntil close visible shortens allowance _ _ _ next).2.suffix
          obtain ⟨m, rfl, behind⟩ := eq_append_of_suffix left
          have behind := behind.length_le
          obtain ⟨k, rfl, shorter, head, firstAgain, found⟩ :=
            item_again shortens mirrors inside (c := ',') rfl first comma (by omega)
          have nextAgain := ih (show less - 1 ≤ limit by omega) (show less - 1 ≤ bound by omega) m q
            depth depth' xs next inside (by omega)
          exact listUntil_ok_iff.mpr (.more (head ▸ goesOn) firstAgain found nextAgain)
      | last goesOn first noComma ended =>
          subst last
          obtain ⟨mark, same⟩ := expect_ok_iff.mp ended
          obtain ⟨k, rfl, shorter, head, firstAgain, -⟩ :=
            item_again shortens mirrors inside closer first mark (by omega)
          obtain rfl : depth' = depth := same
          exact listUntil_ok_iff.mpr (.last (head ▸ goesOn) firstAgain noComma (expect_swap mark))

end DocSig.DocType
