import DocSig.Docblock.Basic
import DocSig.Proofs.Docblock.Segments

/-!
The tags of a comment, read off the positions at which they start.

Where a tag starts depends on three neighbouring characters of the comment's content
(`StartsAt`), what its name is on the characters behind that position, and what its body is on the
position at which the next one starts (`tagAt`). Reading a comment gives exactly these tags
(`tags?_eq_tagAt`).
-/

set_option autoImplicit false

namespace DocSig.Docblock

variable {text : Text} {p : Nat}

/-- A tag starts at a position: an `@` before an ASCII letter, at the start or behind white
space. -/
structure StartsAt (text : Text) (p : Nat) : Prop where
  mark : text[p]? = some '@'
  letter : ∃ c ∈ text[p + 1]?, c.isAlpha = true
  apart : p = 0 ∨ ∃ c ∈ text[p - 1]?, isBlank c = true

/-- Whether a tag may start at a position, as far as what stands before it goes. -/
def boundaryAt (text : Text) (p : Nat) : Bool := p == 0 || text[p - 1]?.any isBlank

theorem startsAt_iff : StartsAt text p ↔
    text[p]? = some '@' ∧ text[p + 1]?.any Char.isAlpha = true ∧ boundaryAt text p = true := by
  rw [boundaryAt, Bool.or_eq_true, beq_iff_eq, Option.any_eq_true, Option.any_eq_true]
  exact ⟨fun starts => ⟨starts.mark, starts.letter, starts.apart⟩,
    fun ⟨mark, letter, apart⟩ => ⟨mark, letter, apart⟩⟩

instance (text : Text) : DecidablePred (StartsAt text) :=
  fun _ => decidable_of_iff _ startsAt_iff.symm

/-- The positions from `p` on at which a tag starts, in order. -/
def startsFrom (text : Text) (p : Nat) : List Nat :=
  (List.range' p (text.length - p)).filter fun q => StartsAt text q

/-- The first position from `p` on at which a tag starts, or the end of the text. -/
def nextFrom (text : Text) (p : Nat) : Nat := (startsFrom text p).head?.getD text.length

/-- The tag that starts at a position: an `@` with the longest run of name characters behind it,
and the text from there to the next tag, without white space at its ends. -/
def tagAt (text : Text) (p : Nat) : Tag :=
  let word := (text.drop (p + 1)).takeWhile isTagChar
  ⟨'@' :: word, Text.trim (text.extract (p + 1 + word.length) (nextFrom text (p + 1)))⟩

theorem startsFrom_of_length_le (past : text.length ≤ p) : startsFrom text p = [] := by
  rw [startsFrom, Nat.sub_eq_zero_of_le past]
  rfl

theorem startsFrom_of_lt (inside : p < text.length) : startsFrom text p =
    if StartsAt text p then p :: startsFrom text (p + 1) else startsFrom text (p + 1) := by
  obtain ⟨more, length⟩ : ∃ more, text.length - p = more + 1 := ⟨text.length - p - 1, by omega⟩
  have later : text.length - (p + 1) = more := by omega
  simp only [startsFrom, length, later, List.range'_succ, List.filter_cons, decide_eq_true_eq]

theorem mem_startsFrom {q : Nat} (found : q ∈ startsFrom text p) :
    p ≤ q ∧ q < text.length ∧ StartsAt text q := by
  obtain ⟨inside, starts⟩ := List.mem_filter.mp found
  have bounds := List.mem_range'_1.mp inside
  exact ⟨bounds.1, by omega, of_decide_eq_true starts⟩

/-- What comes next is a tag start, or the text is at its end. -/
theorem nextFrom_cases (text : Text) (p : Nat) :
    nextFrom text p = text.length ∨ nextFrom text p ∈ startsFrom text p := by
  rw [nextFrom]
  cases startsFrom text p with
  | nil => exact Or.inl rfl
  | cons q more => exact Or.inr List.mem_cons_self

theorem le_nextFrom (within : p ≤ text.length) : p ≤ nextFrom text p := by
  rcases nextFrom_cases text p with ends | found
  · exact ends ▸ within
  · exact (mem_startsFrom found).1

theorem stopsAt_nextFrom (text : Text) (p : Nat) :
    StopsAt isTagChar (text.drop (nextFrom text p)) := by
  intro c here
  rw [List.head?_drop] at here
  rcases nextFrom_cases text p with ends | found
  · rw [ends, List.getElem?_length] at here
    cases here
  · rw [(mem_startsFrom found).2.2.mark] at here
    cases here
    decide

theorem startsTag_iff {c : Char} {s : Text} (behind : text.drop p = c :: s) :
    startsTag (boundaryAt text p) c s = true ↔ StartsAt text p := by
  have here : text[p]? = some c := by rw [← List.head?_drop, behind]; rfl
  have next : text[p + 1]? = s.head? := by
    rw [← List.head?_drop, ← List.drop_drop, behind]
    rfl
  rw [startsAt_iff, here, next, Option.some_inj, startsTag, Bool.and_eq_true, Bool.and_eq_true,
    beq_iff_eq]
  tauto

/-- A piece that goes on to the next tag start behind its first character. -/
theorem extract_cons {c : Char} (here : text[p]? = some c) :
    text.extract p (nextFrom text (p + 1)) = c :: text.extract (p + 1) (nextFrom text (p + 1)) := by
  obtain ⟨inside, rfl⟩ := List.getElem?_eq_some_iff.mp here
  have ahead : p + 1 ≤ nextFrom text (p + 1) := le_nextFrom inside
  obtain ⟨more, size⟩ : ∃ more, nextFrom text (p + 1) - p = more + 1 :=
    ⟨nextFrom text (p + 1) - p - 1, by omega⟩
  have sizeRest : nextFrom text (p + 1) - (p + 1) = more := by omega
  rw [List.extract_eq_take_drop, List.extract_eq_take_drop, size, sizeRest,
    List.drop_eq_getElem_cons inside, List.take_succ_cons]

/-- From a position on, the text is cut where tags start. -/
theorem segments_drop (text : Text) (p : Nat) :
    segments (boundaryAt text p) (text.drop p) =
      (text.extract p (nextFrom text p),
        (startsFrom text p).map fun q => text.extract q (nextFrom text (q + 1))) := by
  -- on what is left of the text, since one more character moves the position by one
  induction left : text.drop p generalizing p with
  | nil =>
      have past : text.length ≤ p := List.drop_eq_nil_iff.mp left
      have none : text.extract p (nextFrom text p) = [] := by
        rw [List.extract_eq_take_drop, left, List.take_nil]
      rw [none, startsFrom_of_length_le past]
      rfl
  | cons c s ih =>
      have rest : text.drop (p + 1) = s := by
        rw [← List.drop_drop, left]
        rfl
      have here : text[p]? = some c := by rw [← List.head?_drop, left]; rfl
      have boundary : boundaryAt text (p + 1) = isBlank c := by simp [boundaryAt, here]
      have inside : p < text.length := (List.getElem?_eq_some_iff.mp here).1
      have piece := extract_cons here
      have behind := ih (p + 1) rest
      rw [boundary] at behind
      rw [segments, behind]
      dsimp only
      by_cases starts : StartsAt text p
      · have listed : startsFrom text p = p :: startsFrom text (p + 1) := by
          rw [startsFrom_of_lt inside, if_pos starts]
        have here : nextFrom text p = p := by rw [nextFrom, listed]; rfl
        rw [if_pos ((startsTag_iff left).mpr starts), here, listed, List.map_cons, piece]
        simp [List.extract_eq_take_drop]
      · have listed : startsFrom text p = startsFrom text (p + 1) := by
          rw [startsFrom_of_lt inside, if_neg starts]
        have later : nextFrom text p = nextFrom text (p + 1) := by rw [nextFrom, nextFrom, listed]
        rw [if_neg (starts ∘ (startsTag_iff left).mp), later, listed, piece]

/-- A piece from one tag start to the next holds the tag that starts there. -/
theorem tagOf_extract (starts : StartsAt text p) :
    tagOf (text.extract p (nextFrom text (p + 1))) = tagAt text p := by
  have inside : p < text.length := (List.getElem?_eq_some_iff.mp starts.mark).1
  rw [extract_cons starts.mark, tagOf, pieceOf, tagAt]
  dsimp only
  have whole := List.take_append_drop (nextFrom text (p + 1) - (p + 1)) (text.drop (p + 1))
  have behind : (text.drop (p + 1)).drop (nextFrom text (p + 1) - (p + 1)) =
      text.drop (nextFrom text (p + 1)) := by
    rw [List.drop_drop, Nat.add_sub_cancel' (le_nextFrom inside)]
  have word : (text.extract (p + 1) (nextFrom text (p + 1))).takeWhile isTagChar =
      (text.drop (p + 1)).takeWhile isTagChar := by
    rw [← whole, behind, takeWhile_append_stop _ _ _ (stopsAt_nextFrom text (p + 1)),
      List.extract_eq_take_drop]
  rw [← drop_length_takeWhile, word, List.extract_eq_take_drop, List.drop_take, List.drop_drop,
    List.extract_eq_take_drop, Nat.sub_sub]

/-- The tags of a text are those that start at its positions. -/
theorem tagsOf_eq_tagAt (text : Text) : tagsOf text = (startsFrom text 0).map (tagAt text) := by
  have cut := segments_drop text 0
  rw [List.drop_zero, show boundaryAt text 0 = true from rfl] at cut
  rw [tagsOf, cut, List.map_map]
  exact List.map_congr_left fun p found => tagOf_extract (mem_startsFrom found).2.2

/-- A fault that no step gives is not that of the steps together. -/
theorem bind_ne_error {α β : Type} {fault : DocFault} {first : Except DocFault α}
    {next : α → Except DocFault β} (not_first : first ≠ .error fault)
    (not_next : ∀ value, next value ≠ .error fault) : first >>= next ≠ .error fault := by
  cases first with
  | error other => exact fun same => not_first (congrArg Except.error (Except.error.inj same))
  | ok value => exact not_next value

theorem parseTagType_ne_unterminated (label body : Text) :
    parseTagType label body ≠ .error .unterminated := by
  unfold parseTagType
  dsimp only
  split
  · nofun
  · split <;> nofun

theorem parseParameter_ne_unterminated (body : Text) :
    parseParameter body ≠ .error .unterminated := by
  refine bind_ne_error (parseTagType_ne_unterminated _ _) fun typed => ?_
  dsimp only
  split <;> nofun

/-- A tag's fault is never that of a comment without delimiters. -/
theorem ofTags_ne_unterminated (tags : List Tag) : ofTags tags ≠ .error .unterminated := by
  induction tags with
  | nil => nofun
  | cons tag tags ih =>
      rw [ofTags]
      split
      · exact bind_ne_error (parseParameter_ne_unterminated _) fun _ => bind_ne_error ih nofun
      · split
        · exact bind_ne_error (parseTagType_ne_unterminated _ _) fun _ => bind_ne_error ih nofun
        · exact ih

/-- A comment between its delimiters has one tag for each position of its content at which one
starts, in order; a comment is refused as unterminated if it lacks its delimiters, and only then. -/
theorem tags?_eq_tagAt (comment : Text) :
    tags? comment = ((inner? comment).map fun inner =>
        (startsFrom (content inner) 0).map (tagAt (content inner))) ∧
      (parse comment = .error .unterminated ↔ inner? comment = none) := by
  have tags : tags? comment = (inner? comment).map fun inner =>
      (startsFrom (content inner) 0).map (tagAt (content inner)) := by
    rw [tags?_eq_tagsOf]
    exact congrArg (Option.map · (inner? comment)) (funext fun inner => tagsOf_eq_tagAt _)
  refine ⟨tags, ?_⟩
  rw [parse, tags]
  cases inner? comment with
  | none => exact iff_of_true rfl rfl
  | some inner => exact iff_of_false (ofTags_ne_unterminated _) nofun

/-- Tags in one line are told apart; an `@` within a word starts none. -/
example : tags? "/** @param Foo $a by a@b.c @return@x Bar\n * or {@see} */".toList =
    some [⟨"@param".toList, "Foo $a by a@b.c".toList⟩,
      ⟨"@return".toList, "@x Bar\nor {@see}".toList⟩] := by
  decide

end DocSig.Docblock
