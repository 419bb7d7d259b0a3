import DocSig.Proofs.Docblock.Layout
import DocSig.Proofs.Docblock.Starts

/-!
Tags of other names than `@param` and `@return` do not change what a comment declares.

Lines that begin with a tag leave the tags before them as they are, but for a line feed that is
trimmed off (`trimmed_gather`). So lines put in before a tag or at the end add the tags that start
in them and nothing else, and tags of other names are passed over (`ofTags_filter`).
-/

set_option autoImplicit false

namespace DocSig.Docblock

/-- The first line, if there is any, begins with a tag. -/
def BeginWithTag (lines : List Text) : Prop := ∀ line ∈ lines.head?, StartsAt line 0

instance (lines : List Text) : Decidable (BeginWithTag lines) :=
  inferInstanceAs (Decidable (∀ line ∈ lines.head?, StartsAt line 0))

/-- Lines that begin with a tag and in which no tag starts that declares a type. -/
structure OtherTags (lines : List Text) : Prop where
  begin : BeginWithTag lines
  others : ∀ line ∈ lines, ∀ p ∈ startsFrom line 0,
    (tagAt line p).label ≠ "@param".toList ∧ (tagAt line p).label ≠ "@return".toList

def declaresType (tag : Tag) : Bool :=
  tag.label == "@param".toList || tag.label == "@return".toList

theorem declaresType_iff {tag : Tag} : declaresType tag = true ↔
    tag.label = "@param".toList ∨ tag.label = "@return".toList := by
  rw [declaresType, Bool.or_eq_true, beq_iff_eq, beq_iff_eq]

theorem tags?_eq_gather (comment : Text) :
    tags? comment = (inner? comment).map fun inner =>
      (gather [] (inner.lines.map stripGutter)).reverse.map trimmed :=
  congrArg (Option.map · (inner? comment)) (funext fun inner => tagsOfLines_eq_gather inner.lines)

/-- One line adds its pieces, and what stands before them to the last tag. -/
theorem gather_cons (tags : List Tag) (line : Text) (lines : List Text) :
    gather tags (line :: lines) =
      gather (((segments true line).2.map pieceOf).reverse ++
        extend ('\n' :: (segments true line).1) tags) lines := by
  have read := readLine_segments (extend ['\n'] tags) true [] 0 line (by simp)
  rw [extend_extend, List.reverse_nil, List.nil_append, List.drop_zero] at read
  rw [gather, List.foldl_cons, read]
  rfl

/-- Only the last tag grows. -/
theorem extend_append {last : List Tag} (some : last ≠ []) (s : Text) (earlier : List Tag) :
    extend s (last ++ earlier) = extend s last ++ earlier := by
  cases last with
  | nil => exact absurd rfl some
  | cons tag more => rfl

theorem extend_ne_nil {tags : List Tag} (some : tags ≠ []) (s : Text) : extend s tags ≠ [] := by
  cases tags with
  | nil => exact absurd rfl some
  | cons tag more => exact List.cons_ne_nil _ _

theorem gather_append {last : List Tag} (some : last ≠ []) (earlier : List Tag)
    (lines : List Text) : gather (last ++ earlier) lines = gather last lines ++ earlier := by
  induction lines generalizing last with
  | nil => rfl
  | cons line lines ih =>
      rw [gather_cons, gather_cons, extend_append some, ← List.append_assoc]
      apply ih
      exact List.append_ne_nil_of_right_ne_nil _ (extend_ne_nil some _)

/-- A line that begins with a tag is cut at its first character. -/
theorem segments_of_startsAt {line : Text} (starts : StartsAt line 0) :
    ∃ piece pieces, segments true line = ([], piece :: pieces) := by
  cases line with
  | nil => cases starts.mark
  | cons c s =>
      have whole : (c :: s).drop 0 = c :: s := rfl
      have first : startsTag true c s = true := (startsTag_iff whole).mpr starts
      rw [segments]
      dsimp only
      rw [if_pos first]
      exact ⟨_, _, rfl⟩

/-- Lines that begin with a tag add their own tags, and a line feed to the tag before. -/
theorem gather_begin (tags : List Tag) {line : Text} (starts : StartsAt line 0)
    (lines : List Text) :
    gather tags (line :: lines) = gather [] (line :: lines) ++ extend ['\n'] tags := by
  obtain ⟨piece, pieces, cut⟩ := segments_of_startsAt starts
  have some : ((piece :: pieces).map pieceOf).reverse ≠ [] := by simp
  rw [gather_cons, gather_cons, cut]
  show gather (_ ++ extend ['\n'] tags) lines = gather (_ ++ []) lines ++ extend ['\n'] tags
  rw [List.append_nil]
  exact gather_append some _ lines

/-- Behind other tags, lines that begin with a tag have the tags that they have alone. -/
theorem trimmed_gather (tags : List Tag) {lines : List Text} (begins : BeginWithTag lines) :
    (gather tags lines).map trimmed = (gather [] lines).map trimmed ++ tags.map trimmed := by
  cases lines with
  | nil => rfl
  | cons line lines =>
      rw [gather_begin tags (begins line rfl), List.map_append, trimmed_extend_feed]

theorem labels_extend (s : Text) (tags : List Tag) :
    (extend s tags).map Tag.label = tags.map Tag.label := by
  cases tags <;> rfl

theorem labels_pieces (line : Text) :
    ((segments true line).2.map pieceOf).map Tag.label =
      (startsFrom line 0).map fun p => (tagAt line p).label := by
  have tags : ((segments true line).2.map tagOf).map Tag.label =
      ((startsFrom line 0).map (tagAt line)).map Tag.label :=
    congrArg (List.map Tag.label) (tagsOf_eq_tagAt line)
  rw [List.map_map, List.map_map] at tags
  rw [List.map_map]
  exact tags

/-- A tag of some lines has the name of one that starts in one of them. -/
theorem mem_labels_gather {tags : List Tag} {lines : List Text} {label : Text}
    (found : label ∈ (gather tags lines).map Tag.label) :
    label ∈ tags.map Tag.label ∨
      ∃ line ∈ lines, ∃ p ∈ startsFrom line 0, (tagAt line p).label = label := by
  induction lines generalizing tags with
  | nil => exact Or.inl found
  | cons line lines ih =>
      rw [gather_cons] at found
      rcases ih found with before | ⟨later, inside, p, starts, same⟩
      · rw [List.map_append, List.map_reverse, labels_extend, labels_pieces, List.mem_append,
          List.mem_reverse, List.mem_map] at before
        rcases before with ⟨p, starts, same⟩ | earlier
        · exact Or.inr ⟨line, List.mem_cons_self, p, starts, same⟩
        · exact Or.inl earlier
      · exact Or.inr ⟨later, List.mem_cons_of_mem line inside, p, starts, same⟩

theorem OtherTags.not_declaresType {lines : List Text} (other : OtherTags lines) :
    ∀ tag ∈ (gather [] lines).map trimmed, ¬ declaresType tag = true := by
  intro tag found declares
  obtain ⟨raw, inside, rfl⟩ := List.mem_map.mp found
  rcases mem_labels_gather (List.mem_map_of_mem inside) with none | ⟨line, within, p, starts, same⟩
  · cases none
  · obtain ⟨noParameter, noResult⟩ := other.others line within p starts
    rw [same] at noParameter noResult
    exact (declaresType_iff.mp declares).elim noParameter noResult

/-- Tags of other names declare nothing. -/
theorem ofTags_filter (tags : List Tag) : ofTags (tags.filter declaresType) = ofTags tags := by
  induction tags with
  | nil => rfl
  | cons tag tags ih =>
      by_cases parameter : tag.label = "@param".toList
      · rw [List.filter_cons_of_pos (declaresType_iff.mpr (Or.inl parameter))]
        rw [ofTags, ofTags, if_pos parameter, if_pos parameter, ih]
      · by_cases result : tag.label = "@return".toList
        · rw [List.filter_cons_of_pos (declaresType_iff.mpr (Or.inr result))]
          rw [ofTags, ofTags, if_neg parameter, if_neg parameter, if_pos result, if_pos result, ih]
        · rw [List.filter_cons_of_neg fun declares =>
            (declaresType_iff.mp declares).elim parameter result]
          rw [ofTags, if_neg parameter, if_neg result, ih]

/-- Lines with tags of other names, put in before a line that begins with a tag or at the end,
change neither what a comment declares nor how it is refused. -/
theorem parse_inserted {comment longer inner innerLonger : Text}
    (before inserted after : List Text) (delimited : inner? comment = some inner)
    (lines : inner.lines.map stripGutter = before ++ after)
    (delimitedLonger : inner? longer = some innerLonger)
    (linesLonger : innerLonger.lines.map stripGutter = before ++ (inserted ++ after))
    (next : BeginWithTag after) (other : OtherTags inserted) : parse longer = parse comment := by
  have tags : tags? comment = some (((gather [] before).map trimmed).reverse ++
      ((gather [] after).map trimmed).reverse) := by
    rw [tags?_eq_gather, delimited, Option.map_some, lines, gather, List.foldl_append]
    rw [← gather, ← gather, List.map_reverse, trimmed_gather _ next, List.reverse_append]
  have tagsLonger : tags? longer = some (((gather [] before).map trimmed).reverse ++
      (((gather [] inserted).map trimmed).reverse ++ ((gather [] after).map trimmed).reverse)) := by
    rw [tags?_eq_gather, delimitedLonger, Option.map_some, linesLonger, gather, List.foldl_append,
      List.foldl_append]
    rw [← gather, ← gather, ← gather, List.map_reverse, trimmed_gather _ next,
      trimmed_gather _ other.begin, List.reverse_append, List.reverse_append, List.append_assoc]
  have none : ((gather [] inserted).map trimmed).reverse.filter declaresType = [] := by
    rw [List.filter_eq_nil_iff]
    exact fun tag found => other.not_declaresType tag (List.mem_reverse.mp found)
  rw [parse, parse, tags, tagsLonger]
  dsimp only
  rw [← ofTags_filter, List.filter_append, List.filter_append, none, List.nil_append,
    ← List.filter_append, ofTags_filter]

def wrappedComment : Text :=
  "/**\n * @param array<int,\n *   Foo> $a\n * @return ?Bar */".toList

/-- Other tags: with an address behind the name, and with a longer name and a tag in braces. -/
def throwsLines : List Text :=
  ["@throws Foo b@return.c".toList, "".toList, "@parameter \x7b@param\x7d".toList]

def throwsComment : Text :=
  "/**\n * @param array<int,\n *   Foo> $a\n * @throws Foo b@return.c\n *\n".toList ++
    " * @parameter \x7b@param\x7d\n * @return ?Bar */".toList

theorem parse_insertedThrows :
    OtherTags throwsLines ∧ parse throwsComment = parse wrappedComment ∧
      parse wrappedComment =
        .ok ⟨[⟨"$a".toList, .single "array<int, Foo>".toList⟩], [.single "?Bar".toList]⟩ := by
  have other : OtherTags throwsLines := ⟨by decide, by decide⟩
  refine ⟨other, ?_, by decide +kernel⟩
  exact parse_inserted ["".toList, "@param array<int,".toList, "Foo> $a".toList] throwsLines
    ["@return ?Bar ".toList] rfl (by decide) rfl (by decide) (by decide) other

end DocSig.Docblock
