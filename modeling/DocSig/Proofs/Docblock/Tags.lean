import DocSig.Proofs.Docblock.Segments

/-!
The tags of a comment that is laid out with one tag in each line.

Such a comment is followed through its delimiters, its gutter and the cut into tags: what is
left of each line is its tag, with the white space at the end of the line gone.
-/

set_option autoImplicit false

namespace DocSig.Docblock

/-- A tag as it is written, behind the gutter of its line. -/
def tagText (tag : Tag) : Text := tag.label ++ ' ' :: tag.body

def commentText (tags : List Tag) : Text :=
  "/**\n".toList ++ (tags.flatMap (fun tag => " * ".toList ++ tagText tag ++ ['\n']) ++
    " */".toList)

/-- A text in which no tag starts and no line ends. -/
def IsPlain (s : Text) : Prop := ∀ c ∈ s, c ≠ '@' ∧ c ≠ '\n' ∧ c ≠ '\r'

instance (s : Text) : Decidable (IsPlain s) :=
  List.decidableBAll _ s

@[simp] theorem isPlain_nil : IsPlain [] := nofun

@[simp] theorem isPlain_cons (c : Char) (s : Text) :
    IsPlain (c :: s) ↔ (c ≠ '@' ∧ c ≠ '\n' ∧ c ≠ '\r') ∧ IsPlain s := by
  simp [IsPlain]

@[simp] theorem isPlain_append (s t : Text) : IsPlain (s ++ t) ↔ IsPlain s ∧ IsPlain t := by
  exact List.forall_mem_append

/-- A tag that takes up one line and holds no other tag. -/
structure FitsLine (tag : Tag) : Prop where
  named : ∃ c word, tag.label = '@' :: c :: word ∧ c.isAlpha = true ∧
    ∀ d ∈ c :: word, isTagChar d = true
  solid : StopsAt isBlank tag.body
  plain : IsPlain tag.body

theorem isTagChar_plain {c : Char} (tagChar : isTagChar c = true) :
    c ≠ '@' ∧ c ≠ '\n' ∧ c ≠ '\r' := by
  refine ⟨?_, ?_, ?_⟩ <;> rintro rfl <;> revert tagChar <;> decide

/-- Behind its `@`, a tag is one line in which no other tag starts. -/
theorem FitsLine.shape {tag : Tag} (fits : FitsLine tag) :
    ∃ c rest, tagText tag = '@' :: c :: rest ∧ c.isAlpha = true ∧ IsPlain (c :: rest) := by
  obtain ⟨c, word, named, letter, all⟩ := fits.named
  have label : IsPlain (c :: word) := fun d found => isTagChar_plain (all d found)
  refine ⟨c, word ++ ' ' :: tag.body, by simp [tagText, named], letter, ?_⟩
  rw [← List.cons_append]
  exact (isPlain_append _ _).mpr ⟨label, (isPlain_cons _ _).mpr ⟨by decide, fits.plain⟩⟩

theorem inner?_comment (text : Text) :
    inner? ("/**".toList ++ (text ++ "*/".toList)) = some text := by
  have start : Text.trimStart ("/**".toList ++ (text ++ "*/".toList)) =
      "/**".toList ++ (text ++ "*/".toList) :=
    Text.trimStart_cons_solid '/' _ (by decide)
  have last : Text.trimEnd ("/**".toList ++ (text ++ "*/".toList)) =
      "/**".toList ++ (text ++ "*/".toList) := by
    refine Text.trimEnd_of_solid _ ?_
    rw [← List.append_assoc, List.getLast?_append]
    intro c found
    cases found
    decide
  unfold inner? Text.trim
  rw [start, last, Text.after?_append]
  exact Text.before?_append text "*/".toList

theorem stripGutter_star (rest : Text) (solid : StopsAt isBlank rest) :
    stripGutter (" * ".toList ++ rest) = rest := by
  have star : Text.trimStart (" * ".toList ++ rest) = '*' :: ' ' :: rest := by
    change Text.trimStart (' ' :: '*' :: ' ' :: rest) = _
    rw [Text.trimStart_space, Text.trimStart_cons_solid '*' _ (by decide)]
  simp only [stripGutter, star]
  rw [Text.trimStart_space, Text.trimStart_of_stopsAt rest solid]

theorem lines_tagLines (tags : List Tag) (fit : ∀ tag ∈ tags, FitsLine tag) :
    Text.lines (tags.flatMap (fun tag => " * ".toList ++ tagText tag ++ ['\n']) ++ [' ']) =
      tags.map (fun tag => " * ".toList ++ tagText tag) ++ [[' ']] := by
  induction tags with
  | nil => rfl
  | cons tag tags ih =>
      obtain ⟨c, rest, shape, -, plain⟩ := (fit tag (by simp)).shape
      have plainLine : ∀ d ∈ " * ".toList ++ tagText tag, d ≠ '\n' ∧ d ≠ '\r' := by
        intro d found
        rw [shape, List.mem_append, List.mem_cons] at found
        rcases found with gutter | rfl | inside
        · revert d
          exact forall_of_all (by decide)
        · decide
        · exact (plain d inside).2
      have line := Text.lines_append
        (tags.flatMap (fun tag => " * ".toList ++ tagText tag ++ ['\n']) ++ [' '])
        (fun feed => (plainLine _ feed).1 rfl)
        (fun last => (plainLine _ (List.mem_of_getLast? last)).2 rfl)
      rw [List.flatMap_cons, List.append_assoc, List.append_assoc, List.singleton_append, line,
        ih fun other found => fit other (List.mem_cons_of_mem tag found)]
      rfl

/-- What is left of a comment is the tags, each in a line, behind an empty line. -/
theorem content_tagLines (tags : List Tag) (fit : ∀ tag ∈ tags, FitsLine tag) :
    content ('\n' :: (tags.flatMap (fun tag => " * ".toList ++ tagText tag ++ ['\n']) ++ [' '])) =
      '\n' :: tags.flatMap (fun tag => tagText tag ++ ['\n']) := by
  have stripped : (tags.map fun tag => " * ".toList ++ tagText tag).map stripGutter =
      tags.map tagText := by
    rw [List.map_map]
    refine List.map_congr_left fun tag found => stripGutter_star _ ?_
    obtain ⟨c, rest, shape, -, -⟩ := (fit tag found).shape
    rw [shape, stopsAt_cons]
    decide
  have shifted : ∀ texts : List Text,
      texts.flatMap (['\n'] ++ ·) ++ ['\n'] = '\n' :: texts.flatMap (· ++ ['\n']) := by
    intro texts
    induction texts with
    | nil => rfl
    | cons text texts ih => simp only [List.flatMap_cons, List.append_assoc, ih]; simp
  unfold content
  rw [show Text.lines ('\n' :: (tags.flatMap (fun tag => " * ".toList ++ tagText tag ++ ['\n']) ++
      [' '])) = [] :: Text.lines (tags.flatMap (fun tag => " * ".toList ++ tagText tag ++ ['\n']) ++
      [' ']) from rfl, lines_tagLines tags fit]
  have blank : stripGutter [' '] = [] := by decide
  rw [List.map_cons, List.map_append, stripped, List.map_cons, blank, List.map_nil, Text.join_cons,
    List.flatMap_append]
  have shift := shifted (tags.map tagText)
  rw [List.flatMap_map] at shift
  simpa [stripGutter, List.flatMap_map] using shift

/-- No tag starts in a line without an `@`; the next line starts behind white space. -/
theorem segments_line (line rest : Text) (atBoundary : Bool) (plain : '@' ∉ line) :
    segments atBoundary (line ++ '\n' :: rest) =
      (line ++ '\n' :: (segments true rest).1, (segments true rest).2) := by
  induction line generalizing atBoundary with
  | nil =>
      have feed : isBlank '\n' = true := by decide
      simp [segments, startsTag, feed]
  | cons c line ih =>
      have other : c ≠ '@' := fun same => plain (by simp [same])
      rw [List.cons_append, segments, ih (isBlank c) fun inside => plain (by simp [inside])]
      simp [startsTag, other]

theorem segments_tagLines (tags : List Tag) (fit : ∀ tag ∈ tags, FitsLine tag) :
    segments true (tags.flatMap fun tag => tagText tag ++ ['\n']) =
      ([], tags.map fun tag => tagText tag ++ ['\n']) := by
  -- each line is cut off at its `@`, which stands behind the line feed of the line before
  induction tags with
  | nil => rfl
  | cons tag tags ih =>
      obtain ⟨c, rest, shape, letter, plain⟩ := (fit tag (by simp)).shape
      have line := segments_line (c :: rest) (tags.flatMap fun tag => tagText tag ++ ['\n'])
        (isBlank '@') (fun inside => (plain '@' inside).1 rfl)
      rw [ih fun other found => fit other (List.mem_cons_of_mem tag found)] at line
      have starts : startsTag true '@'
          (c :: rest ++ '\n' :: tags.flatMap fun tag => tagText tag ++ ['\n']) = true := by
        simp [startsTag, letter]
      rw [List.flatMap_cons, shape, List.append_assoc, List.singleton_append, List.cons_append,
        segments, line, starts]
      simp [shape]

theorem tagOf_line (tag : Tag) (fits : FitsLine tag) :
    tagOf (tagText tag ++ ['\n']) = ⟨tag.label, tag.body.trimEnd⟩ := by
  obtain ⟨c, word, named, -, all⟩ := fits.named
  have stop : StopsAt isTagChar (' ' :: (tag.body ++ ['\n'])) := by
    rw [stopsAt_cons]
    decide
  have cut : Text.trim (' ' :: (tag.body ++ ['\n'])) = tag.body.trimEnd := by
    unfold Text.trim
    rw [Text.trimStart_space]
    cases body : tag.body with
    | nil => decide
    | cons d more =>
        have solid : isBlank d = false := (stopsAt_cons isBlank d more).mp (body ▸ fits.solid)
        rw [List.cons_append, Text.trimStart_cons_solid d _ solid, ← List.cons_append]
        exact Text.trimEnd_blank (d :: more) '\n' (by decide)
  have whole : tagText tag ++ ['\n'] = '@' :: ((c :: word) ++ ' ' :: (tag.body ++ ['\n'])) := by
    simp [tagText, named]
  rw [whole, tagOf, pieceOf, takeWhile_word isTagChar _ _ all stop,
    dropWhile_word isTagChar _ _ all stop, cut, named]

/-- Every tag of a comment is found, in order, and nothing else is. -/
theorem tags?_commentText (tags : List Tag) (fit : ∀ tag ∈ tags, FitsLine tag) :
    tags? (commentText tags) = some (tags.map fun tag => ⟨tag.label, tag.body.trimEnd⟩) := by
  have whole : commentText tags = "/**".toList ++ ('\n' :: (tags.flatMap
      (fun tag => " * ".toList ++ tagText tag ++ ['\n']) ++ [' ']) ++ "*/".toList) := by
    simp [commentText]
  have first : segments true ('\n' :: tags.flatMap fun tag => tagText tag ++ ['\n']) =
      (['\n'], tags.map fun tag => tagText tag ++ ['\n']) := by
    have line := segments_line [] (tags.flatMap fun tag => tagText tag ++ ['\n']) true (by simp)
    rw [segments_tagLines tags fit] at line
    exact line
  rw [tags?_eq_tagsOf, whole, inner?_comment, Option.map_some, content_tagLines tags fit, tagsOf,
    first, List.map_map]
  exact congrArg some (List.map_congr_left fun tag found => tagOf_line tag (fit tag found))

end DocSig.Docblock
