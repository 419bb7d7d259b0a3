import DocSig.Proofs.DocType.Enclosed

/-!
What follows a type does not change how it is read.

The readers of types are mirrored at every allowance (`mirrors_readers`), by induction on the
allowance of the first run. A whole text is the case in which nothing is left before what may
follow.
-/

set_option autoImplicit false

namespace DocSig.DocType

variable {α : Type} {p q k u v : Text} {limit : Nat}

/-- Nothing goes on with a name before `v` if nothing did before `u`. -/
theorem name_swap (apart : Apart v) (union term : Reader DocType) (allowance depth : Nat)
    {base : Text} (noConstant : ∀ more, q ++ u ≠ ':' :: ':' :: more)
    (noGeneric : ∀ more, q ++ u ≠ '<' :: more) (noShape : ∀ more, q ++ u ≠ '\x7b' :: more)
    (noCall : ∀ more, q ++ u = '(' :: more → isCallableName base = false) :
    NameRun union term allowance base depth (q ++ v) (.name base) ⟨q ++ v, depth⟩ := by
  -- what begins with a mark before `v` begins with it before `u`
  have marked : ∀ {start more : Text}, (∀ c ∈ start, isBreak c = false) →
      q ++ v = start ++ more → ∃ tail, q ++ u = start ++ tail := by
    intro start more visible same
    obtain ⟨m, rfl⟩ := eq_append_of_marks apart visible same
    exact ⟨m ++ u, List.append_assoc start m u⟩
  apply NameRun.name
  · intro more same
    obtain ⟨tail, same⟩ := marked (forall_of_all (by decide))
      (show q ++ v = [':', ':'] ++ more from same)
    exact noConstant tail same
  · intro more same
    obtain ⟨tail, same⟩ := marked (forall_of_all (by decide))
      (show q ++ v = ['<'] ++ more from same)
    exact noGeneric tail same
  · intro more same
    obtain ⟨tail, same⟩ := marked (forall_of_all (by decide))
      (show q ++ v = ['\x7b'] ++ more from same)
    exact noShape tail same
  · intro more same
    obtain ⟨tail, same⟩ := marked (forall_of_all (by decide))
      (show q ++ v = ['('] ++ more from same)
    exact noCall tail same

/-- A list in brackets, if `q ++ u` is still to come behind it. -/
theorem list_again {item other : Reader α} {close : Char} (closer : isCloser close = true)
    (shortens : Shortens item) (mirrors : Mirrors u v Closes limit item other)
    {allowance bound : Nat} (enough : limit ≤ bound) {more : Text} {depth : Nat} {xs : List α}
    {last : Cursor} (read : listUntil item close allowance ⟨more, depth + 1⟩ = .ok (xs, last))
    (left : q ++ u <:+ last.rest) :
    ∃ m k, more = m ++ u ∧ last = ⟨k ++ u, depth + 1⟩ ∧ q <:+ k ∧ k <:+ m ∧
      (m.length ≤ q.length + limit →
        listUntil other close bound ⟨m ++ v, depth + 1⟩ = .ok (xs, ⟨k ++ v, depth + 1⟩)) := by
  have takes := takes_listUntil close (isCloser_plain closer).1 shortens allowance
  obtain ⟨m, rfl, -⟩ := eq_append_of_suffix (left.trans (takes.shortens _ _ _ read).2)
  obtain ⟨k, rfl, behind, within, -⟩ := takes.reach read left
  refine ⟨m, k, rfl, rfl, behind, within, fun short => ?_⟩
  have longer := behind.length_le
  exact mirrors_listUntil closer shortens mirrors allowance (Nat.le_refl limit) enough m k
    (depth + 1) (depth + 1) xs read (Nat.succ_pos depth) (by omega)

/-- A list in brackets that ends at `q ++ u`. -/
theorem list_whole {item other : Reader α} {close : Char} (closer : isCloser close = true)
    (shortens : Shortens item) (mirrors : Mirrors u v Closes limit item other)
    {allowance bound : Nat} (enough : limit ≤ bound) {more : Text} {depth depth' : Nat}
    {xs : List α}
    {last : Cursor} (read : listUntil item close allowance ⟨more, depth + 1⟩ = .ok (xs, last))
    (stop : Cursor.mk (q ++ u) depth' = last.leave) :
    ∃ m, more = m ++ u ∧ depth' = depth ∧ (m.length ≤ q.length + limit →
      listUntil other close bound ⟨m ++ v, depth + 1⟩ = .ok (xs, ⟨q ++ v, depth + 1⟩)) := by
  obtain ⟨rest, same⟩ := Cursor.mk.inj stop
  obtain ⟨m, k, rfl, rfl, -, -, listAgain⟩ :=
    list_again (v := v) closer shortens mirrors enough read (suffix_of_eq rest.symm)
  obtain rfl : q = k := List.append_cancel_right rest
  exact ⟨m, rfl, same, listAgain⟩

/-- The result of a callable, if `k` is left of its list and a colon leads to the result. -/
theorem result_again {term term' : Reader DocType} (takesTerm : Takes term)
    (mirrorsTerm : Mirrors u v Ends limit term term') {k tail : Text} {depth depth' : Nat}
    {result : DocType} (colon : behindSeparators depth (k ++ u) = ':' :: tail)
    (read : term ⟨behindSeparators depth tail, depth⟩ = .ok (result, ⟨q ++ u, depth'⟩))
    (ended : Ends depth q) (short : k.length ≤ q.length + limit + 1) :
    ∃ r, behindSeparators depth (k ++ v) = ':' :: r ∧
      term' ⟨behindSeparators depth r, depth⟩ = .ok (result, ⟨q ++ v, depth'⟩) := by
  obtain ⟨r, n, _, rfl, marked, inner, some, seen, -, -, -, nearer⟩ :=
    joined_reach takesTerm colon read (List.suffix_refl (q ++ u))
  rw [seen] at read
  obtain ⟨markedAgain, onward⟩ := joined_swap marked inner some v
  refine ⟨r ++ v, markedAgain, ?_⟩
  rw [onward]
  exact mirrorsTerm n q depth depth' result read ended (by omega)

/-- What goes on with a name goes on with it before `v` as well. -/
theorem mirrors_name (calm : Calm v) {union union' term term' : Reader DocType}
    (takesUnion : Takes union) (quotes : QuotesFirst union) (takesTerm : Takes term)
    (mirrorsUnion : Mirrors u v (EndsUnion v) limit union union')
    (mirrorsTerm : Mirrors u v Ends limit term term') {allowance bound : Nat}
    (enough : limit ≤ bound) {base : Text} {depth depth' : Nat} {x : DocType}
    (run : NameRun union term allowance base depth (k ++ u) x ⟨q ++ u, depth'⟩)
    (ended : Ends depth q) (short : k.length ≤ q.length + limit) :
    NameRun union' term' bound base depth (k ++ v) x ⟨q ++ v, depth'⟩ := by
  have apart := calm.apart
  generalize whole : k ++ u = s at run
  generalize stop : Cursor.mk (q ++ u) depth' = there at run
  cases run with
  | @constant more some =>
      obtain ⟨cut, rfl⟩ := Cursor.mk.inj stop
      obtain ⟨m, rfl, -⟩ := eq_append_of_suffix (cut ▸ List.dropWhile_suffix isConstantChar)
      obtain rfl : k = ':' :: ':' :: m := List.append_cancel_right whole
      obtain ⟨leftAgain, takenAgain⟩ := dropWhile_swap cut.symm fun _ => apart.constant
      rw [← takenAgain] at some ⊢
      rw [← leftAgain]
      exact .constant some
  | generic list some =>
      obtain ⟨m, rfl, rfl, listAgain⟩ := list_whole (v := v) rfl
        (takes_typeArgument takesUnion).shortens (mirrors_typeArgument takesUnion mirrorsUnion)
        enough list stop
      obtain rfl : k = '<' :: m := List.append_cancel_right whole
      rw [List.length_cons] at short
      exact .generic (listAgain (by omega)) some
  | shape list =>
      obtain ⟨m, rfl, rfl, listAgain⟩ := list_whole (v := v) rfl
        (takes_shapeEntry takesUnion).shortens
        (mirrors_shapeEntry apart takesUnion quotes mirrorsUnion) enough list stop
      obtain rfl : k = '\x7b' :: m := List.append_cancel_right whole
      rw [List.length_cons] at short
      exact .shape (listAgain (by omega))
  | @function _ tail _ _ last _ callable list colon read =>
      subst stop
      have left := (takesTerm.shortens _ _ _ read).2
      have front := colon ▸ behindSeparators_suffix last.leave.depth last.leave.rest
      obtain ⟨m, l, rfl, rfl, behind, within, listAgain⟩ := list_again (v := v) rfl
        (parameter_shortens takesUnion) (mirrors_parameter apart takesUnion mirrorsUnion) enough
        list ((left.trans (behindSeparators_suffix _ tail)).trans
          ((List.suffix_cons ':' tail).trans front))
      obtain rfl : k = '(' :: m := List.append_cancel_right whole
      rw [List.length_cons] at short
      have within := within.length_le
      have colon : behindSeparators depth (l ++ u) = ':' :: tail := colon
      obtain ⟨r, marked, resultAgain⟩ :=
        result_again takesTerm mirrorsTerm colon read ended (by omega)
      exact .function callable (listAgain (by omega)) marked resultAgain
  | callable callable list noColon =>
      rw [← stop] at noColon
      obtain ⟨m, rfl, rfl, listAgain⟩ := list_whole (v := v) rfl (parameter_shortens takesUnion)
        (mirrors_parameter apart takesUnion mirrorsUnion) enough list stop
      obtain rfl : k = '(' :: m := List.append_cancel_right whole
      rw [List.length_cons] at short
      exact .callable callable (listAgain (by omega))
        (ended.no_result (u := u) calm noColon)
  | name noConstant noGeneric noShape noCall =>
      obtain ⟨same, rfl⟩ := Cursor.mk.inj stop
      obtain rfl : k = q := List.append_cancel_right (whole.trans same.symm)
      subst same
      exact name_swap apart union' term' bound depth' noConstant noGeneric noShape noCall

theorem mirrors_named (calm : Calm v) {union union' term term' : Reader DocType}
    (takesUnion : Takes union) (quotes : QuotesFirst union) (takesTerm : Takes term)
    (mirrorsUnion : Mirrors u v (EndsUnion v) limit union union')
    (mirrorsTerm : Mirrors u v Ends limit term term') {allowance bound : Nat}
    (enough : limit ≤ bound) {c : Char} (start : isNameStart c = true) {depth depth' : Nat}
    {x : DocType}
    (read : named union term allowance ⟨c :: p ++ u, depth⟩ = .ok (x, ⟨q ++ u, depth'⟩))
    (ended : Ends depth q) (short : p.length ≤ q.length + limit) :
    named union' term' bound ⟨c :: p ++ v, depth⟩ = .ok (x, ⟨q ++ v, depth'⟩) := by
  obtain ⟨complete, run⟩ := named_ok_iff.mp read
  have left : q ++ u <:+ (readName (c :: p ++ u)).2 := by
    rcases (run.passes takesUnion takesTerm).2 with same | took
    · exact suffix_of_eq same.symm
    · exact took.suffix
  obtain ⟨k, rest, -⟩ := eq_append_of_suffix left
  have again : readName (c :: p ++ v) = ((readName (c :: p ++ u)).1, k ++ v) :=
    readName_swap (Prod.ext rfl rest) (List.cons_ne_nil c p) fun _ => calm.apart.name
  have shorter := (readName_took (p ++ u) start).length_lt
  rw [← List.cons_append, rest] at shorter
  simp only [List.length_append, List.length_cons] at shorter
  dsimp only at complete run
  rw [rest] at run
  refine named_ok_iff.mpr ?_
  dsimp only
  rw [again]
  exact ⟨complete, mirrors_name calm takesUnion quotes takesTerm mirrorsUnion mirrorsTerm enough run
    ended (by omega)⟩

theorem Took.cons {s rest : Text} (took : Took s rest) (left : q ++ u <:+ rest) :
    ∃ c m, s = c :: m ++ u ∧ q <:+ m := by
  obtain ⟨k, rfl, behind⟩ := eq_append_of_suffix left
  obtain ⟨front, last, rfl, -⟩ := took
  cases front with
  | nil => exact ⟨last, k, rfl, behind⟩
  | cons c front =>
      refine ⟨c, front ++ last :: k, by simp, ?_⟩
      exact (behind.trans (List.suffix_cons last k)).trans (List.suffix_append front (last :: k))

/-- Where a type begins, and that it begins there with another text behind it. -/
theorem atomStart_reach {depth : Nat} (took : Took (atomStart ⟨p ++ u, depth⟩) (q ++ u))
    (v : Text) :
    ∃ c m, atomStart ⟨p ++ u, depth⟩ = c :: m ++ u ∧ atomStart ⟨p ++ v, depth⟩ = c :: m ++ v ∧
      c :: m <:+ p := by
  obtain ⟨c, m, seen, -⟩ := took.cons (List.suffix_refl (q ++ u))
  have whole := atomStart_suffix ⟨p ++ u, depth⟩
  rw [seen] at whole
  refine ⟨c, m, seen, ?_, suffix_of_append whole⟩
  unfold atomStart at seen ⊢
  split at seen
  · next inside =>
      rw [if_pos inside]
      exact trimStart_swap seen (List.cons_ne_nil c m)
  · next outside =>
      rw [if_neg outside]
      exact congrArg (· ++ v) (List.append_cancel_right seen)

/-- A number that ends before `u` starts before it with all that makes it one. -/
theorem startsNumber_swap {c : Char} {m : Text} (number : startsNumber (c :: (m ++ u)) = true)
    (left : (readNumber (c :: (m ++ u))).2 = q ++ u) : startsNumber (c :: (m ++ v)) = true := by
  by_cases sign : c = '-'
  · subst sign
    cases m with
    | nil =>
        cases u with
        | nil => cases number
        | cons d more =>
            have digit : d.isDigit = true := number
            have shorter := (number_took more digit).length_lt
            have left : (d :: more).dropWhile isNumberChar = q ++ d :: more := left
            rw [left, List.length_append] at shorter
            omega
    | cons d more => exact number
  · have unsigned : ∀ s : Text, startsNumber (c :: s) = c.isDigit := by
      intro s
      unfold startsNumber
      split
      · next same => exact absurd (List.cons.inj same).1 sign
      · next same => rw [← (List.cons.inj same).1]
      · next same => cases same
    rw [unsigned] at number ⊢
    exact number

theorem mirrors_atom (calm : Calm v) {union union' term term' : Reader DocType}
    (takesUnion : Takes union) (quotes : QuotesFirst union) (takesTerm : Takes term)
    (mirrorsUnion : Mirrors u v (EndsUnion v) limit union union')
    (mirrorsTerm : Mirrors u v Ends limit term term') {allowance bound : Nat}
    (enough : limit ≤ bound) :
    Mirrors u v Ends (limit + 1) (atom union term allowance) (atom union' term' bound) := by
  intro p q depth depth' x read ended short
  replace read := atom_ok_iff.mp read
  obtain ⟨c, m, seen, again, whole⟩ := atomStart_reach (read.took takesUnion takesTerm).2 v
  have whole := whole.length_le
  rw [List.length_cons] at whole
  refine atom_ok_iff.mpr ?_
  rw [seen] at read
  rw [again]
  dsimp only at read ⊢
  generalize stop : Cursor.mk (q ++ u) depth' = there at read
  cases read with
  | nullable read =>
      subst stop
      exact .nullable (mirrorsTerm m q depth depth' _ read ended (by omega))
  | @group _ _ last read =>
      obtain ⟨lastRest, lastDepth⟩ := last
      obtain ⟨rfl, rfl⟩ := Cursor.mk.inj stop
      exact .group (mirrors_grouped takesUnion mirrorsUnion m q (depth + 1) lastDepth x read
        (Nat.succ_pos depth) (by omega))
  | quoted quote read =>
      cases stop
      have plain : c ≠ '\\' := by rcases quote with rfl | rfl <;> decide
      exact .quoted quote (readQuoted_swap plain read)
  | number starts =>
      obtain ⟨left, rfl⟩ := Cursor.mk.inj stop
      have numberAgain : readNumber (c :: m ++ v) = ((readNumber (c :: m ++ u)).1, q ++ v) :=
        readNumber_swap (Prod.ext rfl left.symm) (List.cons_ne_nil c m) fun _ => calm.apart.number
      have run : AtomRun union' term' bound depth' (c :: m ++ v) _ _ :=
        .number (startsNumber_swap starts left.symm)
      rwa [numberAgain] at run
  | name start read =>
      subst stop
      exact .name start (mirrors_named calm takesUnion quotes takesTerm mirrorsUnion mirrorsTerm
        enough start read ended (by omega))

/-- A type of quotes is read as such. -/
theorem quotesFirst_readUnion (allowance : Nat) : QuotesFirst (readUnion allowance) := by
  intro quote s depth x there mark read
  match allowance with
  | 0 => cases read
  | 1 =>
      rw [readUnion] at read
      obtain ⟨_, conjunct, -⟩ := bind_eq_ok.mp read
      obtain ⟨_, term, -⟩ := bind_eq_ok.mp conjunct
      cases term
  | allowance + 2 =>
      have takes := (takes_types (allowance + 1)).2
      rw [readUnion] at read
      obtain ⟨⟨_, second⟩, conjunct, more⟩ := bind_eq_ok.mp read
      obtain ⟨⟨_, first⟩, term, others⟩ := bind_eq_ok.mp conjunct
      rw [readTerm] at term
      obtain ⟨⟨_, start⟩, head, brackets⟩ := bind_eq_ok.mp term
      have solid : isBlank quote = false := by rcases mark with rfl | rfl <;> decide
      have noMark : quote ≠ '?' ∧ quote ≠ '(' := by rcases mark with rfl | rfl <;> decide
      simp only [atom, atom_cursor depth quote s solid, if_neg noMark.1, if_neg noMark.2,
        if_pos mark] at head
      cases found : Text.readQuoted quote s with
      | none =>
          rw [found] at head
          cases head
      | some front =>
          obtain ⟨body, rest⟩ := front
          rw [found] at head
          cases head
          refine ⟨body, rest, rfl, ?_⟩
          have afterTerm : first.rest <:+ rest := by
            cases brackets
            exact wrapArrays_suffix rfl
          have afterConjuncts : second.rest <:+ first.rest := by
            obtain ⟨⟨_, last⟩, chain, final⟩ := bind_eq_ok.mp others
            cases final
            exact ((passes_moreConjuncts takes _).shortens _ _ _ chain).2
          have afterAlternatives : there.rest <:+ second.rest := by
            obtain ⟨⟨_, last⟩, chain, final⟩ := bind_eq_ok.mp more
            cases final
            exact ((passes_moreAlternatives (takes_conjunction takes _) _).shortens _ _ _ chain).2
          exact afterAlternatives.trans (afterConjuncts.trans afterTerm)

theorem mirrors_readers (calm : Calm v) (allowance : Nat) : ∀ bound limit,
    (2 * limit + 2 ≤ bound →
      Mirrors u v (EndsUnion v) limit (readUnion allowance) (readUnion bound)) ∧
      (2 * limit + 1 ≤ bound → Mirrors u v Ends limit (readTerm allowance) (readTerm bound)) := by
  -- the two readers call each other with one less of the allowance
  induction allowance with
  | zero =>
      intro bound limit
      refine ⟨?_, ?_⟩
      · intro _ p q depth depth' x read
        cases read
      · intro _ p q depth depth' x read
        cases read
  | succ allowance ih =>
      intro bound limit
      refine ⟨fun enough => ?_, fun enough => ?_⟩
      · obtain ⟨bound, rfl⟩ := Nat.exists_eq_succ_of_ne_zero (show bound ≠ 0 by omega)
        rw [readUnion, readUnion]
        have takes := (takes_types allowance).2
        exact mirrors_alternation (takes_conjunction takes allowance)
          (mirrors_conjunction calm takes ((ih bound limit).2 (by omega)) allowance (by omega))
          allowance (by omega)
      · obtain ⟨bound, rfl⟩ := Nat.exists_eq_succ_of_ne_zero (show bound ≠ 0 by omega)
        have takes := takes_types allowance
        have atomTakes := takes_atom takes.1 takes.2 allowance
        cases limit with
        | zero => exact (takes_types (allowance + 1)).2.mirrors_zero
        | succ limit =>
            rw [readTerm, readTerm]
            exact mirrors_arrayed calm atomTakes
              (mirrors_atom calm takes.1 (quotesFirst_readUnion allowance) takes.2
                ((ih bound limit).1 (by omega)) ((ih bound limit).2 (by omega)) (by omega))

/-- Before a text that goes on with no type, a union ends as its members do. -/
theorem mirrors_types (still : Still v) (allowance : Nat) : ∀ bound limit,
    (2 * limit + 2 ≤ bound → Mirrors u v Ends limit (readUnion allowance) (readUnion bound)) ∧
      (2 * limit + 1 ≤ bound → Mirrors u v Ends limit (readTerm allowance) (readTerm bound)) := by
  intro bound limit
  obtain ⟨union, term⟩ := mirrors_readers (u := u) still.toCalm allowance bound limit
  refine ⟨fun enough p q depth depth' x read ended short => ?_, term⟩
  exact union enough p q depth depth' x read (ended.union still.unbarred) short

/-- A type is read with the readers of types, up to the end of the text or to white space. -/
theorem parseType_ok_iff {s rest : Text} {type : DocType} :
    parseType s = .ok (type, rest) ↔
      readUnion (allowanceFor s) ⟨s, 0⟩ = .ok (type, ⟨rest, 0⟩) ∧
        ∀ first ∈ rest.head?, isBlank first = true := by
  constructor
  · intro read
    obtain ⟨⟨found, there⟩, one, final⟩ := bind_eq_ok.mp read
    obtain ⟨left, depth⟩ := there
    have outside : depth = 0 := ((takes_types _).1 _ _ _ one).1
    subst outside
    cases left with
    | nil =>
        cases final
        exact ⟨one, fun first found => nomatch found⟩
    | cons c more =>
        dsimp only at final
        split at final
        · next blank =>
            cases final
            exact ⟨one, fun first found => Option.some.inj found ▸ blank⟩
        · cases final
  · rintro ⟨one, blank⟩
    unfold parseType
    rw [one, bind_ok]
    cases rest with
    | nil => rfl
    | cons c more =>
        dsimp only
        rw [if_pos (blank c rfl)]
        rfl

/-- A type is read the same in front of any text that does not go on with it, if the text is empty
or begins with white space. -/
theorem parseType_swap {c : Text} {type : DocType} (read : parseType (c ++ u) = .ok (type, u))
    (still : Still v) (blank : ∀ first ∈ v.head?, isBlank first = true) :
    parseType (c ++ v) = .ok (type, v) := by
  have one := (parseType_ok_iff.mp read).1
  have enough : 2 * c.length + 2 ≤ allowanceFor (c ++ v) := by
    rw [allowanceFor, List.length_append]
    omega
  have again := (mirrors_types still _ _ c.length).1 enough c [] 0 0 type one
    (Or.inr ⟨rfl, rfl⟩) (by simp)
  exact parseType_ok_iff.mpr ⟨again, blank⟩

/-- What follows a type never changes the type. What is read is not empty and ends where the text
does or before white space; and in front of any text that is empty or begins with white space of
ASCII, and does not go on with `|`, `&` or `:` behind spaces and tabs, it is read as the same type,
with that text left. -/
theorem parseType_local {s rest : Text} {type : DocType} (read : parseType s = .ok (type, rest)) :
    ∃ c, s = c ++ rest ∧ c ≠ [] ∧ (∀ first ∈ rest.head?, isBlank first = true) ∧
      ∀ other, Quiet other → parseType (c ++ other) = .ok (type, other) := by
  obtain ⟨front, last, rfl, -⟩ := parseType_took read
  have whole : front ++ last :: rest = (front ++ [last]) ++ rest := by simp
  rw [whole] at read ⊢
  refine ⟨front ++ [last], rfl, by simp, (parseType_ok_iff.mp read).2, fun other quiet => ?_⟩
  refine parseType_swap read quiet.still fun first found => ?_
  rcases asciiBlank_cases (quiet.harmless first found) with rfl | rfl | rfl | rfl | rfl <;> decide

/-- A type with a list, a by-reference parameter and a result, in front of its description. -/
def describedType : Text := "array<int, A> | callable(B &$x): C description".toList

theorem parseType_describedType :
    ∃ type, parseType describedType = .ok (type, " description".toList) ∧
      parseType "array<int, A> | callable(B &$x): C\n@param".toList =
        .ok (type, "\n@param".toList) := by
  have left : (parseType describedType).toOption.map Prod.snd = some " description".toList := by
    decide +kernel
  cases read : parseType describedType with
  | error fault => simp [read, Except.toOption] at left
  | ok found =>
      obtain ⟨type, rest⟩ := found
      obtain rfl : rest = " description".toList := by simpa [read, Except.toOption] using left
      obtain ⟨c, whole, -, -, anywhere⟩ := parseType_local read
      obtain rfl : c = "array<int, A> | callable(B &$x): C".toList :=
        List.append_cancel_right (whole.symm.trans (by decide))
      have quiet : Quiet "\n@param".toList :=
        ⟨fun c found => Option.some.inj found ▸ rfl,
          fun c found => Option.some.inj found ▸ by decide⟩
      exact ⟨type, rfl, anywhere _ quiet⟩

end DocSig.DocType
