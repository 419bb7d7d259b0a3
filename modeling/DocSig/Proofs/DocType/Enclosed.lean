import DocSig.Proofs.DocType.Mirrors

/-!
The readers of what stands within brackets, run before two different texts.

Each of them ends at a mark that it sees, so what is behind the mark has no part in it.
-/

set_option autoImplicit false

namespace DocSig.DocType

variable {p q k u v : Text} {limit : Nat}

/-- A type within brackets that something visible follows. -/
theorem type_again {type other : Reader DocType} (takes : Takes type)
    (mirrors : Mirrors u v (EndsUnion v) limit type other) {depth : Nat} (inside : 0 < depth)
    {x : DocType}
    {middle : Cursor} {c : Char} {m : Text} (visible : isBlank c = false) (noConjunct : c ≠ '&')
    (read : type ⟨p ++ u, depth⟩ = .ok (x, middle)) (left : c :: m ++ u <:+ middle.rest)
    (short : p.length ≤ m.length + limit) :
    ∃ k, middle = ⟨k ++ u, depth⟩ ∧ c :: m <:+ k ∧ k <:+ p ∧
      other ⟨p ++ v, depth⟩ = .ok (x, ⟨k ++ v, depth⟩) := by
  obtain ⟨k, rfl, behind, within, -⟩ := takes.reach read left
  have settled := settled_of_anchor inside behind visible noConjunct
  have longer := behind.length_le
  rw [List.length_cons] at longer
  exact ⟨k, rfl, behind, within, mirrors p k depth depth x read (Or.inl settled) (by omega)⟩

theorem expect_last {wanted : Char} {here : Cursor} {depth : Nat}
    (read : expect wanted here = .ok ⟨q ++ u, depth⟩) :
    here.rest.trimStart = wanted :: q ++ u ∧ depth = here.depth ∧
      wanted :: q ++ u <:+ here.rest := by
  obtain ⟨found, same⟩ := expect_ok_iff.mp read
  have found : here.rest.trimStart = wanted :: q ++ u := found
  exact ⟨found, same, found ▸ trimStart_suffix here.rest⟩

/-- A mark that is expected, if `q ++ u` is still to come behind it. -/
theorem expect_left {wanted : Char} {here there : Cursor} (read : expect wanted here = .ok there)
    (left : q ++ u <:+ there.rest) :
    ∃ m, there = ⟨m ++ u, here.depth⟩ ∧ here.rest.trimStart = wanted :: m ++ u ∧ q <:+ m ∧
      wanted :: m ++ u <:+ here.rest := by
  obtain ⟨rest, depth⟩ := there
  obtain ⟨m, rfl, behind⟩ := eq_append_of_suffix left
  obtain ⟨found, same, before⟩ := expect_last read
  exact ⟨m, congrArg (Cursor.mk (m ++ u)) same, found, behind, before⟩

/-- The name behind white space, if a mark that is part of neither is still to come. -/
theorem word_anchor {c : Char} {more : Text} (visible : isBlank c = false)
    (start : isNameStart c = false) (later : isNameChar c = false) (within : c :: more <:+ p)
    (u v : Text) :
    ∃ n name k, (p ++ u).trimStart = n ++ u ∧ (p ++ v).trimStart = n ++ v ∧
      readName (n ++ u) = (name, k ++ u) ∧ readName (n ++ v) = (name, k ++ v) ∧
      c :: more <:+ k ∧ k <:+ n ∧ n <:+ p := by
  obtain ⟨n, seen, again, anchor, shorter⟩ := trimStart_anchor visible within u v
  obtain ⟨name, k, named, namedAgain, anchorName, further⟩ :=
    readName_anchor start later anchor u v
  exact ⟨n, name, k, seen, again, named, namedAgain, anchorName, further, shorter⟩

/-- The second type of a condition, if a mark that is no part of a name is still to come. -/
theorem behindNot_anchor {c : Char} {more : Text} (start : isNameStart c = false)
    (later : isNameChar c = false) (within : c :: more <:+ p) (u v : Text) :
    ∃ s, behindNot (p ++ u) = s ++ u ∧ behindNot (p ++ v) = s ++ v ∧
      (readName (p ++ v)).1 = (readName (p ++ u)).1 ∧ s <:+ p := by
  obtain ⟨word, k, named, namedAgain, -, shorter⟩ := readName_anchor start later within u v
  simp only [behindNot, named, namedAgain]
  split
  · exact ⟨k, rfl, rfl, trivial, shorter⟩
  · exact ⟨p, rfl, rfl, trivial, List.suffix_refl p⟩

theorem mirrors_grouped {union other : Reader DocType} (takes : Takes union)
    (mirrors : Mirrors u v (EndsUnion v) limit union other) :
    Mirrors u v Inside limit (grouped union) (grouped other) := by
  intro p q depth depth' x read inside short
  replace inside : 0 < depth := inside
  generalize stop : Cursor.mk (q ++ u) depth' = there at read
  cases grouped_ok_iff.mp read with
  | plain first noWord close =>
      subst stop
      obtain ⟨mark, same, left⟩ := expect_last close
      obtain ⟨n, seen, again, -, whole⟩ :=
        trimStart_reach (left.trans (takes.shortens _ _ _ first).2) (List.cons_ne_nil _ _) v
      have whole := whole.length_le
      dsimp only at first
      rw [seen] at first
      obtain ⟨k, rfl, -, -, firstAgain⟩ :=
        type_again takes mirrors inside (by decide) (by decide) first left (by omega)
      obtain rfl : depth' = depth := same
      rw [← again] at firstAgain
      refine grouped_ok_iff.mpr (.plain firstAgain ?_ (expect_swap mark))
      rw [trimStart_swap mark (List.cons_ne_nil _ _)]
      simp [readName, isNameStart, isAscii]
  | @condition subject target positive negative middle second third fourth fifth sixth _ rest first
      word two mark three colon four close =>
      subst stop
      -- what is still to come behind each part, from the last one backwards
      obtain ⟨atClose, depthClose, beforeClose⟩ := expect_last close
      obtain ⟨m, rfl, atColon, colonLeft, beforeColon⟩ :=
        expect_left colon (beforeClose.trans (takes.shortens _ _ _ four).2)
      obtain ⟨l, rfl, atMark, markLeft, beforeMark⟩ :=
        expect_left mark (beforeColon.trans (takes.shortens _ _ _ three).2)
      have behindWord : rest <:+ middle.rest.trimStart := by
        have behind := readName_suffix middle.rest.trimStart
        rwa [word] at behind
      have behindFirst : '?' :: l ++ u <:+ middle.rest :=
        (beforeMark.trans ((takes.shortens _ _ _ two).2.trans (behindNot_suffix _))).trans
          ((trimStart_suffix rest).trans (behindWord.trans (trimStart_suffix _)))
      have colonLength := colonLeft.length_le
      have markLength := markLeft.length_le
      rw [List.length_cons] at colonLength markLength
      -- and each part again, from the first one on
      obtain ⟨n, seen, again, -, whole⟩ :=
        trimStart_reach (behindFirst.trans (takes.shortens _ _ _ first).2) (List.cons_ne_nil _ _) v
      have whole := whole.length_le
      dsimp only at first
      rw [seen] at first
      obtain ⟨k, rfl, behind, within, firstAgain⟩ :=
        type_again takes mirrors inside (by decide) (by decide) first behindFirst (by omega)
      obtain ⟨j, name, i, atWord, atWordAgain, named, namedAgain, anchorName, shorterName,
        shorterWord⟩ := word_anchor (by decide) (by decide) (by decide) behind u v
      rw [atWord, named] at word
      obtain ⟨rfl, rfl⟩ := Prod.mk.inj word
      obtain ⟨h, atMode, atModeAgain, anchorMode, shorterMode⟩ :=
        trimStart_anchor (by decide) anchorName u v
      obtain ⟨s, start, startAgain, sameMode, shorterTarget⟩ :=
        behindNot_anchor (by decide) (by decide) anchorMode u v
      rw [atMode, start] at two
      have shorter :=
        (shorterTarget.trans (shorterMode.trans (shorterName.trans shorterWord))).length_le
      have within := within.length_le
      have longer := behind.length_le
      rw [List.length_cons] at longer
      obtain ⟨t, rfl, -, -, targetAgain⟩ :=
        type_again takes mirrors inside (by decide) (by decide) two beforeMark (by omega)
      obtain ⟨f, rfl, -, -, positiveAgain⟩ :=
        type_again takes mirrors inside (by decide) (by decide) three beforeColon (by omega)
      obtain ⟨e, rfl, -, -, negativeAgain⟩ :=
        type_again takes mirrors inside (by decide) (by decide) four beforeClose (by omega)
      obtain rfl : depth' = depth := depthClose
      rw [← again] at firstAgain
      rw [← startAgain, ← atModeAgain] at targetAgain
      have wordAgain : readName (k ++ v).trimStart = ("is".toList, i ++ v) :=
        atWordAgain ▸ namedAgain
      have run : GroupRun other ⟨p ++ v, depth'⟩ _ _ :=
        .condition firstAgain wordAgain targetAgain (expect_swap atMark) positiveAgain
          (expect_swap atColon) negativeAgain (expect_swap atClose)
      rw [atModeAgain, sameMode, ← atMode] at run
      exact grouped_ok_iff.mpr run

theorem Closes.anchor {depth : Nat} (closes : Closes depth q) :
    ∃ c m, c :: m <:+ q ∧ isCloser c = true := by
  obtain ⟨-, c, m, found, closer⟩ := closes
  exact ⟨c, m, found ▸ trimStart_suffix q, closer⟩

theorem isCloser_plain {c : Char} (closer : isCloser c = true) :
    isBlank c = false ∧ isNameStart c = false ∧ isNameChar c = false ∧ isNumberChar c = false ∧
      c ≠ '?' ∧ c ≠ ':' ∧ c ≠ '&' := by
  rcases isCloser_cases closer with rfl | rfl | rfl | rfl <;> decide

/-- The type of an argument, if a mark that is no part of a name is still to come. -/
theorem behindVariance_anchor {c : Char} {more : Text} (visible : isBlank c = false)
    (start : isNameStart c = false) (later : isNameChar c = false) (within : c :: more <:+ p)
    (u v : Text) :
    ∃ s, behindVariance (p ++ u) = s ++ u ∧ behindVariance (p ++ v) = s ++ v ∧ s <:+ p := by
  obtain ⟨word, k, named, namedAgain, anchor, shorter⟩ := readName_anchor start later within u v
  obtain ⟨j, seen, again, -, further⟩ := trimStart_anchor visible anchor u v
  have head : (k ++ v).head? = (k ++ u).head? := by
    cases k with
    | nil => cases List.suffix_nil.mp anchor
    | cons d tail => rfl
  simp only [behindVariance, named, namedAgain, head]
  split
  · exact ⟨j, seen, again, further.trans shorter⟩
  · exact ⟨p, rfl, rfl, List.suffix_refl p⟩

theorem mirrors_typeArgument {union other : Reader DocType} (takes : Takes union)
    (mirrors : Mirrors u v (EndsUnion v) limit union other) :
    Mirrors u v Closes limit (typeArgument union) (typeArgument other) := by
  intro p q depth depth' x read closes short
  obtain ⟨c, m, anchor, closer⟩ := closes.anchor
  obtain ⟨visible, noStart, noName, -⟩ := isCloser_plain closer
  have full : q ≠ [] := ne_nil_of_suffix anchor (List.cons_ne_nil c m)
  generalize stop : Cursor.mk (q ++ u) depth' = there at read
  cases typeArgument_ok_iff.mp read with
  | star mark =>
      cases stop
      exact typeArgument_ok_iff.mpr
        (.star (trimStart_swap (k := '*' :: q) mark (List.cons_ne_nil '*' q)))
  | type noStar read =>
      subst stop
      have left := (takes.shortens _ _ _ read).2.trans (behindVariance_suffix _)
      obtain ⟨n, seen, again, behind, whole⟩ := trimStart_reach left full v
      obtain ⟨s, start, startAgain, shorter⟩ :=
        behindVariance_anchor visible noStart noName (anchor.trans behind) u v
      have shorter := (shorter.trans whole).length_le
      dsimp only at read noStar
      rw [seen, start] at read
      rw [seen] at noStar
      have typeAgain := mirrors s q depth depth' x read (Or.inl closes.settled) (by omega)
      rw [← startAgain, ← again] at typeAgain
      refine typeArgument_ok_iff.mpr (.type (fun rest star => ?_) typeAgain)
      dsimp only at star
      rw [again] at star
      cases n with
      | nil => exact full (List.suffix_nil.mp behind)
      | cons d tail =>
          obtain ⟨rfl, -⟩ := List.cons.inj star
          exact noStar (tail ++ u) rfl

/-- A type that begins with a quote is read up to the closing one first. -/
def QuotesFirst (type : Reader DocType) : Prop :=
  ∀ (quote : Char) (s : Text) (depth : Nat) (x : DocType) (there : Cursor),
    quote = '\'' ∨ quote = '"' → type ⟨quote :: s, depth⟩ = .ok (x, there) →
      ∃ body rest, Text.readQuoted quote s = some (body, rest) ∧ there.rest <:+ rest

theorem mirrors_shapeEntry (apart : Apart v) {union other : Reader DocType}
    (takes : Takes union) (quotes : QuotesFirst union)
    (mirrors : Mirrors u v (EndsUnion v) limit union other) :
    Mirrors u v Closes limit (shapeEntry union) (shapeEntry other) := by
  intro p q depth depth' x read closes short
  obtain ⟨c, m, anchor, closer⟩ := closes.anchor
  obtain ⟨visible, noStart, noName, noNumber, noMark, noColon, -⟩ := isCloser_plain closer
  have full : q ≠ [] := ne_nil_of_suffix anchor (List.cons_ne_nil c m)
  generalize stop : Cursor.mk (q ++ u) depth' = there at read
  -- what does not begin with the dots before `u` does not before `v`
  have undotted : ∀ n : Text, (p ++ u).trimStart = n ++ u → (p ++ v).trimStart = n ++ v →
      (∀ rest, (p ++ u).trimStart ≠ '.' :: '.' :: '.' :: rest) →
        ∀ rest, (p ++ v).trimStart ≠ '.' :: '.' :: '.' :: rest := by
    intro n seen again noDots rest dots
    obtain ⟨t, rfl⟩ := eq_append_of_marks apart (forall_of_all (by decide))
      (show n ++ v = ['.', '.', '.'] ++ rest from again.symm.trans dots)
    exact noDots (t ++ u) seen
  cases shapeEntry_ok_iff.mp read with
  | dots mark =>
      cases stop
      exact shapeEntry_ok_iff.mpr
        (.dots (trimStart_swap (k := '.' :: '.' :: '.' :: q) mark (List.cons_ne_nil _ _)))
  | @keyed key rest isOptional value _ noDots found read =>
      subst stop
      have left := (takes.shortens _ _ _ read).2
      obtain ⟨k, rfl, -⟩ := eq_append_of_suffix left
      obtain ⟨n, seen, again, -, whole⟩ :=
        trimStart_reach (left.trans (readKeyed_suffix found)) full v
      dsimp only at found
      rw [seen] at found
      have shorter := ((suffix_of_append (readKeyed_suffix found)).trans whole).length_le
      have valueAgain := mirrors k q depth depth' value read (Or.inl closes.settled) (by omega)
      refine shapeEntry_ok_iff.mpr (.keyed (undotted n seen again noDots) ?_ valueAgain)
      dsimp only
      rw [again]
      exact readKeyed_swap found
  | @bare value _ noDots noKey read =>
      subst stop
      obtain ⟨n, seen, again, behind, whole⟩ := trimStart_reach (takes.shortens _ _ _ read).2 full v
      have whole := whole.length_le
      dsimp only at noKey read
      rw [seen] at noKey read
      have valueAgain := mirrors n q depth depth' value read (Or.inl closes.settled) (by omega)
      rw [← again] at valueAgain
      refine shapeEntry_ok_iff.mpr (.bare (undotted n seen again noDots) ?_ valueAgain)
      dsimp only
      rw [again]
      refine readKeyed_none_swap noStart noName noNumber visible noMark noColon
        (anchor.trans behind) ?_ noKey
      rintro quote t rfl mark
      obtain ⟨body, rest, found, within⟩ := quotes quote (t ++ u) depth value _ mark read
      obtain ⟨k, rfl, further⟩ := eq_append_of_suffix within
      exact ⟨body, k, found, anchor.trans further⟩

theorem mirrors_parameter (apart : Apart v) {union other : Reader DocType}
    (takes : Takes union) (mirrors : Mirrors u v (EndsUnion v) limit union other) :
    Mirrors u v Closes limit (parameter union) (parameter other) := by
  intro p q depth depth' x read closes short
  obtain ⟨c, m, anchor, closer⟩ := closes.anchor
  obtain ⟨visible, -, -, -, -, -, noConjunct⟩ := isCloser_plain closer
  have full : q ≠ [] := ne_nil_of_suffix anchor (List.cons_ne_nil c m)
  obtain ⟨⟨rest, middleDepth⟩, one, stop⟩ := parameter_ok_iff.mp read
  obtain ⟨cut, rfl⟩ := Cursor.mk.inj stop
  have left : q ++ u <:+ rest := cut ▸ behindParameter_suffix rest
  obtain ⟨k, same, behind, -⟩ := takes.reach one left
  cases same
  have settled := settled_of_anchor closes.1 (anchor.trans behind) visible noConjunct
  have longer := behind.length_le
  have typeAgain := mirrors p k depth depth x one (Or.inl settled) (by omega)
  have rest : behindParameter (k ++ v) = q ++ v := behindParameter_swap apart cut.symm full
  exact parameter_ok_iff.mpr ⟨_, typeAgain, congrArg (Cursor.mk · depth) rest.symm⟩

end DocSig.DocType
