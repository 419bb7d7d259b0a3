import DocSig.Docblock.Tag
import DocSig.Proofs.Text.Scan
import Mathlib.Data.List.TakeWhile

/-!
The cut of a comment into tags, as one pass over its whole text.

A comment is read line by line, and each line goes on with the tags of the lines before it. Its
lines without their gutters, joined by line feeds (`content`), are one text; to read a line feed in
it is to begin a new line (`readLine_feed`). That text falls into the pieces that begin at its tag
starts (`segments`), and the tags are those of the pieces (`tags?_eq_tagsOf`).
-/

set_option autoImplicit false

namespace DocSig.Docblock

/-- The lines of a comment without their gutters, joined by line feeds. -/
def content (inner : Text) : Text := Text.join ['\n'] (inner.lines.map stripGutter)

/-- The text before the first tag start, and the pieces that begin at each tag start. -/
def segments (atBoundary : Bool) : Text → Text × List Text
  | [] => ([], [])
  | c :: s =>
    let (before, pieces) := segments (isBlank c) s
    if startsTag atBoundary c s then ([], (c :: before) :: pieces) else (c :: before, pieces)

/-- The name and the rest of a piece of text that begins at a tag start. -/
def pieceOf : Text → Tag
  | [] => ⟨[], []⟩
  | c :: s => ⟨c :: s.takeWhile isTagChar, s.dropWhile isTagChar⟩

def tagOf (piece : Text) : Tag := ⟨(pieceOf piece).label, (pieceOf piece).body.trim⟩

def tagsOf (text : Text) : List Tag := (segments true text).2.map tagOf

@[simp] theorem extend_nil (tags : List Tag) : extend [] tags = tags := by
  cases tags <;> simp [extend]

theorem extend_extend (first second : Text) (tags : List Tag) :
    extend second (extend first tags) = extend (first ++ second) tags := by
  cases tags <;> simp [extend]

@[simp] theorem isTagChar_feed : isTagChar '\n' = false := by decide

/-- What has been read of a line may be put into the last tag at once. -/
theorem readLine_pending (tags : List Tag) (atBoundary : Bool) (late early : Text) (skip : Nat)
    (s : Text) :
    readLine tags atBoundary (late ++ early) skip s =
      readLine (extend early.reverse tags) atBoundary late skip s := by
  induction s generalizing atBoundary late skip with
  | nil =>
      cases skip <;> simp only [readLine, List.reverse_append, extend_extend]
  | cons c s ih =>
      cases skip with
      | succ skip => exact ih (isBlank c) late skip
      | zero =>
          rw [readLine, readLine, List.reverse_append, extend_extend]
          split
          · rfl
          · exact ih (isBlank c) (c :: late) 0

theorem takeWhile_append_stop (class? : Char → Bool) (s rest : Text) (stop : StopsAt class? rest) :
    (s ++ rest).takeWhile class? = s.takeWhile class? := by
  induction s with
  | nil => exact takeWhile_word class? [] rest (by simp) stop
  | cons c s ih => rw [List.cons_append, List.takeWhile_cons, List.takeWhile_cons, ih]

theorem drop_length_takeWhile (class? : Char → Bool) (s : Text) :
    s.drop (s.takeWhile class?).length = s.dropWhile class? := by
  have cut : (s.takeWhile class? ++ s.dropWhile class?).drop (s.takeWhile class?).length =
      s.dropWhile class? := List.drop_left
  rwa [List.takeWhile_append_dropWhile] at cut

/-- A line feed ends the line: what is behind it is read as the next one. -/
theorem readLine_feed (tags : List Tag) (atBoundary : Bool) (pending : Text) (skip : Nat)
    (line rest : Text) (within : skip ≤ line.length) :
    readLine tags atBoundary pending skip (line ++ '\n' :: rest) =
      readLine (extend ['\n'] (readLine tags atBoundary pending skip line)) true [] 0 rest := by
  induction line generalizing tags atBoundary pending skip with
  | nil =>
      obtain rfl : skip = 0 := Nat.le_zero.mp within
      have flushed := readLine_pending tags true [] ('\n' :: pending) 0 rest
      rw [List.nil_append] at flushed
      rw [List.nil_append, readLine, readLine, if_neg (by simp [startsTag]), extend_extend,
        ← List.reverse_cons]
      exact flushed
  | cons c line ih =>
      cases skip with
      | succ skip => exact ih tags (isBlank c) pending skip (Nat.le_of_succ_le_succ within)
      | zero =>
          have same :
              startsTag atBoundary c (line ++ '\n' :: rest) = startsTag atBoundary c line := by
            cases line <;> simp [startsTag]
          have word : (line ++ '\n' :: rest).takeWhile isTagChar = line.takeWhile isTagChar :=
            takeWhile_append_stop isTagChar line _ (by simp)
          rw [List.cons_append, readLine, readLine, same, word]
          split
          · exact ih _ _ _ _ (List.takeWhile_prefix isTagChar).length_le
          · exact ih _ _ _ _ (Nat.zero_le _)

/-- Lines added to tags are read like one text, each behind a line feed. -/
theorem foldl_addLine (lines : List Text) (tags : List Tag) (line : Text) :
    (line :: lines).foldl addLine tags =
      readLine (extend ['\n'] tags) true [] 0
        (Text.join ['\n'] ((line :: lines).map stripGutter)) := by
  induction lines generalizing tags line with
  | nil => simp [addLine, Text.join_cons]
  | cons next lines ih =>
      have joined : Text.join ['\n'] ((line :: next :: lines).map stripGutter) =
          stripGutter line ++ '\n' :: Text.join ['\n'] ((next :: lines).map stripGutter) := by
        simp [Text.join_cons]
      rw [List.foldl_cons, ih, joined, readLine_feed _ _ _ _ _ _ (Nat.zero_le _)]
      rfl

theorem takeWhile_segments (atBoundary : Bool) (s : Text) :
    (segments atBoundary s).1.takeWhile isTagChar = s.takeWhile isTagChar := by
  induction s generalizing atBoundary with
  | nil => rfl
  | cons c s ih =>
      rw [segments]
      dsimp only
      split
      · next starts =>
        obtain rfl : c = '@' := by
          simp only [startsTag, Bool.and_eq_true, beq_iff_eq] at starts
          exact starts.1.1
        rfl
      · rw [List.takeWhile_cons, List.takeWhile_cons, ih]

/-- The tags that the rest of a text adds are those of its pieces; what stands before the first of
them goes to the tag before, but for the rest of that tag's name. -/
theorem readLine_segments (tags : List Tag) (atBoundary : Bool) (pending : Text) (skip : Nat)
    (s : Text) (name : '@' ∉ s.take skip) :
    readLine tags atBoundary pending skip s =
      ((segments atBoundary s).2.map pieceOf).reverse ++
        extend (pending.reverse ++ (segments atBoundary s).1.drop skip) tags := by
  induction s generalizing tags atBoundary pending skip with
  | nil => cases skip <;> simp [readLine, segments]
  | cons c s ih =>
      cases skip with
      | succ skip =>
          rw [List.take_succ_cons, List.mem_cons, not_or] at name
          have other : startsTag atBoundary c s = false := by simp [startsTag, Ne.symm name.1]
          rw [readLine, ih _ _ _ _ name.2, segments, other]
          rfl
      | zero =>
          rw [readLine, segments]
          split
          · next starts =>
            have word := takeWhile_segments (isBlank c) s
            have unmarked : '@' ∉ s.take (s.takeWhile isTagChar).length := by
              rw [← List.prefix_iff_eq_take.mp (List.takeWhile_prefix isTagChar)]
              intro inside
              exact absurd (List.mem_takeWhile_imp inside) (by decide)
            have rest : (segments (isBlank c) s).1.drop (s.takeWhile isTagChar).length =
                (segments (isBlank c) s).1.dropWhile isTagChar := by
              rw [← word, drop_length_takeWhile]
            rw [ih _ _ _ _ unmarked, rest]
            simp [extend, pieceOf, word]
          · rw [ih _ _ _ _ (by simp)]
            simp

/-- The tags of a comment are those of its content, cut at every tag start. -/
theorem tags?_eq_tagsOf (comment : Text) :
    tags? comment = (inner? comment).map fun inner => tagsOf (content inner) := by
  refine congrArg (Option.map · (inner? comment)) (funext fun inner => ?_)
  have read :
      inner.lines.foldl addLine [] = ((segments true (content inner)).2.map pieceOf).reverse := by
    unfold content
    cases inner.lines with
    | nil => rfl
    | cons line lines =>
        rw [foldl_addLine, readLine_segments _ _ _ _ _ (by simp)]
        simp [extend]
  rw [read, List.reverse_reverse, List.map_map]
  rfl

end DocSig.Docblock
