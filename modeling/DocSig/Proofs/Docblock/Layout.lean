import DocSig.Docblock.Basic
import DocSig.Proofs.DocType.Readers
import DocSig.Proofs.Docblock.Tags

/-!
A comment declares the same however its lines are laid out.

Before its content a line has a margin, of which nothing is left once it is read (`Margin`,
`stripGutter_row`), and a line end is cut off whichever of the two kinds it is of (`lines_join`). A
last line without content adds only a line feed to the last tag, which is trimmed off its body.
-/

set_option autoImplicit false

namespace DocSig.Docblock

/-- What stands in a line before its content: an indentation, and behind it an asterisk with more
spaces and tabs, or none. -/
structure Margin where
  indentation : Text
  gutter : Option Text
  blank : ∀ c ∈ indentation ++ gutter.getD [], isSpaceOrTab c = true

def Margin.flush : Margin := ⟨[], none, List.forall_mem_nil _⟩

def Margin.text (margin : Margin) : Text :=
  margin.indentation ++ (match margin.gutter with
    | some space => '*' :: space
    | none => [])

/-- The content of a line: it holds no line end, and nothing of it would go with a margin. -/
structure ContentLine where
  text : Text
  oneLine : ∀ c ∈ text, c ≠ '\n' ∧ c ≠ '\r'
  solid : ∀ c ∈ text.head?, isBlank c = false ∧ c ≠ '*'

inductive LineEnd where
  | feed
  | returnFeed

def LineEnd.text : LineEnd → Text
  | .feed => ['\n']
  | .returnFeed => ['\r', '\n']

def rowTexts (rows : List (Margin × ContentLine)) : List Text :=
  rows.map fun row => row.1.text ++ row.2.text

def laidOut (ends : LineEnd) (rows : List (Margin × ContentLine)) : Text :=
  "/**".toList ++ (Text.join ends.text (rowTexts rows) ++ "*/".toList)

def laidOutClosed (ends : LineEnd) (rows : List (Margin × ContentLine)) : Text :=
  "/**".toList ++ ((rowTexts rows).flatMap (· ++ ends.text) ++ "*/".toList)

def flushRows (contents : List ContentLine) : List (Margin × ContentLine) :=
  contents.map (Margin.flush, ·)

theorem trimStart_blank {space : Text} (blank : ∀ c ∈ space, isSpaceOrTab c = true) (s : Text) :
    Text.trimStart (space ++ s) = s.trimStart := by
  induction space with
  | nil => rfl
  | cons c space ih =>
      obtain ⟨here, later⟩ := List.forall_mem_cons.mp blank
      rw [List.cons_append,
        Text.trimStart_cons_blank c _ (DocType.isBlank_of_isSpaceOrTab here), ih later]

/-- Nothing of a content is stripped. -/
theorem ContentLine.trimStart_text (content : ContentLine) :
    content.text.trimStart = content.text :=
  Text.trimStart_of_stopsAt _ fun c found => (content.solid c found).1

/-- Of a line, its content is left. -/
theorem stripGutter_row (margin : Margin) (content : ContentLine) :
    stripGutter (margin.text ++ content.text) = content.text := by
  obtain ⟨indentation, gutter, blank⟩ := margin
  obtain ⟨before, behind⟩ := List.forall_mem_append.mp blank
  rw [stripGutter, Margin.text, List.append_assoc, trimStart_blank before]
  cases gutter with
  | none =>
      rw [List.nil_append, content.trimStart_text]
      split
      · next starts => exact absurd rfl (content.solid '*' (by rw [starts]; rfl)).2
      · rfl
  | some space =>
      rw [List.cons_append, Text.trimStart_cons_solid '*' _ (by decide)]
      exact (trimStart_blank behind _).trans content.trimStart_text

theorem row_oneLine (margin : Margin) (content : ContentLine) :
    '\n' ∉ margin.text ++ content.text ∧ '\r' ∉ margin.text ++ content.text := by
  have inMargin : ∀ c ∈ margin.text, c ≠ '\n' ∧ c ≠ '\r' := by
    intro c found
    have space : c = '*' ∨ isSpaceOrTab c = true := by
      obtain ⟨indentation, gutter, blank⟩ := margin
      rcases List.mem_append.mp found with before | behind
      · exact Or.inr (blank c (List.mem_append_left _ before))
      · cases gutter with
        | none => cases behind
        | some space =>
            exact (List.mem_cons.mp behind).imp_right
              fun inside => blank c (List.mem_append_right _ inside)
    rcases space with rfl | space
    · decide
    · refine ⟨?_, ?_⟩ <;> rintro rfl <;> cases space
  have inRow := List.forall_mem_append.mpr ⟨inMargin, content.oneLine⟩
  exact ⟨fun feed => (inRow _ feed).1 rfl, fun mark => (inRow _ mark).2 rfl⟩

/-- The tags of lines that are read one after the other, with their bodies trimmed. -/
def tagsOfLines (lines : List Text) : List Tag :=
  (lines.foldl addLine []).reverse.map fun tag => ⟨tag.label, tag.body.trim⟩

theorem trim_feed (s : Text) : Text.trim (s ++ ['\n']) = s.trim := by
  rw [Text.trim, Text.trim, Text.trimStart, Text.trimStart, List.dropWhile_append]
  split
  · next blank =>
      rw [List.isEmpty_iff.mp blank]
      rfl
  · exact Text.trimEnd_blank _ '\n' (by decide)

/-- A tag without white space at the ends of its body. -/
def trimmed (tag : Tag) : Tag := ⟨tag.label, tag.body.trim⟩

theorem trimmed_extend_feed (tags : List Tag) :
    (extend ['\n'] tags).map trimmed = tags.map trimmed := by
  cases tags with
  | nil => rfl
  | cons tag earlier => simp [extend, trimmed, trim_feed]

/-- A last line without content does not change a tag. -/
theorem tagsOfLines_empty (lines : List Text) :
    tagsOfLines (lines ++ [[]]) = tagsOfLines lines := by
  have last : (lines ++ [[]]).foldl addLine [] = extend ['\n'] (lines.foldl addLine []) := by
    rw [List.foldl_append]
    exact extend_nil _
  change ((lines ++ [[]]).foldl addLine []).reverse.map trimmed =
    (lines.foldl addLine []).reverse.map trimmed
  rw [last, List.map_reverse, List.map_reverse, trimmed_extend_feed]

/-- The tags, last one first, with what lines without gutters add to them. -/
def gather (tags : List Tag) (lines : List Text) : List Tag :=
  lines.foldl (fun tags line => readLine (extend ['\n'] tags) true [] 0 line) tags

/-- The tags are those of what is left of each line. -/
theorem tagsOfLines_eq_gather (lines : List Text) :
    tagsOfLines lines = (gather [] (lines.map stripGutter)).reverse.map trimmed := by
  rw [gather, List.foldl_map]
  rfl

theorem tagsOfLines_congr {lines others : List Text}
    (same : lines.map stripGutter = others.map stripGutter) :
    tagsOfLines lines = tagsOfLines others := by
  rw [tagsOfLines_eq_gather, tagsOfLines_eq_gather, same]

theorem tagsOfLines_dropLast (lines : List Text) :
    tagsOfLines (if lines.getLast? = some [] then lines.dropLast else lines) =
      tagsOfLines lines := by
  split
  · next last =>
      obtain ⟨init, rfl⟩ := List.getLast?_eq_some_iff.mp last
      rw [List.dropLast_concat, tagsOfLines_empty]
  · rfl

theorem tags?_laidOut (ends : LineEnd) (rows : List (Margin × ContentLine)) :
    tags? (laidOut ends rows) = some (tagsOfLines (rows.map fun row => row.2.text)) := by
  have kind : ends.text = ['\n'] ∨ ends.text = ['\r', '\n'] := by
    cases ends
    · exact Or.inl rfl
    · exact Or.inr rfl
  have plain : ∀ part ∈ rowTexts rows, '\n' ∉ part ∧ '\r' ∉ part := by
    intro part found
    obtain ⟨row, -, rfl⟩ := List.mem_map.mp found
    exact row_oneLine row.1 row.2
  have stripped : (rowTexts rows).map stripGutter =
      (rows.map fun row => row.2.text).map stripGutter := by
    rw [rowTexts, List.map_map, List.map_map]
    refine List.map_congr_left fun row _ => ?_
    exact (stripGutter_row row.1 row.2).trans (stripGutter_row .flush row.2).symm
  rw [tags?, laidOut, inner?_comment]
  change some (tagsOfLines (Text.lines (Text.join ends.text (rowTexts rows)))) = _
  rw [Text.lines_join kind plain, tagsOfLines_dropLast, tagsOfLines_congr stripped]

def ContentLine.empty : ContentLine := ⟨[], List.forall_mem_nil _, by simp⟩

/-- A line end behind the last line begins an empty line. -/
theorem laidOutClosed_eq (ends : LineEnd) (rows : List (Margin × ContentLine)) :
    laidOutClosed ends rows = laidOut ends (rows ++ [(.flush, .empty)]) := by
  have joined : ∀ parts : List Text,
      Text.join ends.text (parts ++ [[]]) = parts.flatMap (· ++ ends.text) := by
    intro parts
    induction parts with
    | nil => rfl
    | cons part parts ih =>
        have step : Text.join ends.text (part :: (parts ++ [[]])) =
            part ++ (ends.text ++ Text.join ends.text (parts ++ [[]])) := by
          cases parts <;> simp [Text.join_cons]
        rw [List.cons_append, step, ih, List.flatMap_cons, List.append_assoc]
  rw [laidOutClosed, laidOut, ← joined (rowTexts rows)]
  simp [rowTexts, Margin.text, Margin.flush, ContentLine.empty]

theorem tags?_laidOutClosed (ends : LineEnd) (rows : List (Margin × ContentLine)) :
    tags? (laidOutClosed ends rows) = some (tagsOfLines (rows.map fun row => row.2.text)) := by
  rw [laidOutClosed_eq, tags?_laidOut, List.map_append]
  exact congrArg some (tagsOfLines_empty _)

/-- Neither the margins of its lines nor the kind of its line ends changes what a comment declares
or how it is refused, whether or not its last line has a line end. -/
theorem parse_laidOut (ends : LineEnd) (rows : List (Margin × ContentLine)) :
    parse (laidOut ends rows) = parse (laidOut .feed (flushRows (rows.map Prod.snd))) ∧
      parse (laidOutClosed ends rows) =
        parse (laidOutClosed .feed (flushRows (rows.map Prod.snd))) := by
  have contents : (flushRows (rows.map Prod.snd)).map (fun row => row.2.text) =
      rows.map fun row => row.2.text := by
    simp [flushRows]
  constructor
  · rw [parse, parse, tags?_laidOut, tags?_laidOut, contents]
  · rw [parse, parse, tags?_laidOutClosed, tags?_laidOutClosed, contents]

/-- A type may go on in the next line, behind its gutter. -/
example : parse "/**\r\n\t* @param array<int,\r\n  *\tFoo> $a\r\n*/".toList =
    .ok ⟨[⟨"$a".toList, .single "array<int, Foo>".toList⟩], []⟩ := by
  decide +kernel

end DocSig.Docblock
