import DocSig.DocType.Equality
import DocSig.Docblock.Basic
import DocSig.Proofs.DocType.Progress
import DocSig.Proofs.Docblock.Tags

/-!
A comment that declares a type as its result, with nothing behind the type.

Two readers decide what such a comment declares: the tag layer, which looks for a variable in the
place of the type, and the grammar. They agree on every type but those that begin with a `$`
(`parseTagType_read`), and so `$this` cannot be declared (`parse_resultComment`).
-/

set_option autoImplicit false

namespace DocSig.Docblock

open DocType

variable {t : Text} {type : DocType}

def resultComment (t : Text) : Text := "/** @return ".toList ++ (t ++ " */".toList)

/-- No tag starts in a text without an `@`. -/
theorem segments_plain {s : Text} (plain : '@' ∉ s) (atBoundary : Bool) :
    segments atBoundary s = (s, []) := by
  induction s generalizing atBoundary with
  | nil => rfl
  | cons c s ih =>
      rw [List.mem_cons, not_or] at plain
      rw [segments, ih plain.2]
      simp [startsTag, Ne.symm plain.1]

/-- The body of the tag is what stands between its name and the end of the comment. -/
theorem tags?_resultComment (noMark : '@' ∉ t) (oneLine : '\n' ∉ t) (first : StopsAt isBlank t)
    (last : ∀ c ∈ t.getLast?, isBlank c = false) (nonempty : t ≠ []) :
    tags? (resultComment t) = some [⟨"@return".toList, t⟩] := by
  have inner : inner? (resultComment t) = some (" @return ".toList ++ (t ++ [' '])) := by
    have between := inner?_comment (" @return ".toList ++ (t ++ [' ']))
    rwa [List.append_assoc, List.append_assoc] at between
  have stripped : content (" @return ".toList ++ (t ++ [' '])) =
      '@' :: ("return".toList ++ ' ' :: (t ++ [' '])) := by
    have line : '\n' ∉ " @return ".toList ++ (t ++ [' ']) := by
      simp [oneLine]
    rw [content, Text.lines_single line (by simp)]
    simp [stripGutter, Text.trimStart_space, Text.trimStart_cons_solid '@' _ (by decide),
      Text.join_cons]
  have piece : segments true ('@' :: ("return".toList ++ ' ' :: (t ++ [' ']))) =
      ([], ['@' :: ("return".toList ++ ' ' :: (t ++ [' ']))]) := by
    have plain : '@' ∉ "return".toList ++ ' ' :: (t ++ [' ']) := by
      simp [noMark]
    rw [segments, segments_plain plain]
    rfl
  have body : Text.trim (' ' :: (t ++ [' '])) = t := by
    obtain ⟨c, more, rfl⟩ := List.exists_cons_of_ne_nil nonempty
    have solid := (stopsAt_cons isBlank c more).mp first
    rw [Text.trim, Text.trimStart_space, List.cons_append, Text.trimStart_cons_solid c _ solid,
      ← List.cons_append, Text.trimEnd_blank _ ' ' (by decide), Text.trimEnd_of_solid _ last]
  have letters : ∀ c ∈ "return".toList, isTagChar c = true := forall_of_all (by decide)
  have stop : StopsAt isTagChar (' ' :: (t ++ [' '])) := (stopsAt_cons _ _ _).mpr (by decide)
  rw [tags?_eq_tagsOf, inner, Option.map_some, stripped, tagsOf, piece, List.map_singleton, tagOf,
    pieceOf, takeWhile_word isTagChar _ _ letters stop, dropWhile_word isTagChar _ _ letters stop]
  dsimp only
  rw [body]
  rfl

/-- Of the characters that a type may begin with, the `$` is the one that a variable begins with. -/
theorem lacksType_of_startsType {c : Char} (starts : startsType c = true) (s : Text) :
    lacksType (c :: s) = ('$' == c) := by
  have notReference : ('&' == c) = false :=
    beq_false_of_ne (ne_of_startsType starts (by decide)).symm
  have notVariadic : ('.' == c) = false :=
    beq_false_of_ne (ne_of_startsType starts (by decide)).symm
  simp [lacksType, List.isPrefixOf, notReference, notVariadic]

/-- A type at the start of a tag is what the tag gives, unless the tag layer takes it for a
variable. -/
theorem parseTagType_read {rest : Text} (read : parseType t = .ok (type, rest))
    (first : StopsAt isBlank t) (label : Text) :
    parseTagType label t = if t.head? = some '$' then .error (.missingType label)
      else .ok (type.toAlternatives, rest) := by
  rw [parseTagType, Text.trimStart_of_stopsAt t first]
  obtain ⟨c, more, rfl, starts⟩ := parseType_head read
  rw [lacksType_of_startsType starts, read, List.head?_cons]
  by_cases variable_ : c = '$'
  · rw [variable_]
    rfl
  · rw [if_neg (by simpa using Ne.symm variable_), if_neg (by simpa using variable_)]

/-- The declarations of a comment whose only tag gives a result. -/
theorem ofTags_only {tag : Tag} (label : tag.label = "@return".toList) :
    ofTags [tag] = (parseTagType tag.label tag.body).map fun typed => ⟨[], [typed.1]⟩ := by
  have other : tag.label ≠ "@param".toList := by
    rw [label]
    decide
  rw [ofTags, if_neg other, if_pos label]
  cases parseTagType tag.label tag.body <;> rfl

/-- A type that is read in full is declared as a result, but for one that begins with a `$`: the
comment is then refused because it gives no type. -/
theorem parse_resultComment (read : parseType t = .ok (type, [])) (noMark : '@' ∉ t)
    (oneLine : '\n' ∉ t) (first : StopsAt isBlank t)
    (last : ∀ c ∈ t.getLast?, isBlank c = false) :
    parse (resultComment t) =
      if t.head? = some '$' then .error (.missingType "@return".toList)
      else .ok ⟨[], [type.toAlternatives]⟩ := by
  obtain ⟨c, more, shape, -⟩ := parseType_head read
  -- by the projection alone: `rfl` would spell both texts out
  have label : (Tag.mk "@return".toList t).label = "@return".toList := by dsimp only
  rw [parse, tags?_resultComment noMark oneLine first last (by simp [shape])]
  change ofTags [_] = _
  rw [ofTags_only label]
  dsimp only
  rw [parseTagType_read read first]
  split <;> rfl

/-- A union with spaces around its bar and inside of a member. -/
theorem parse_unionResult :
    parse (resultComment "?A | callable(B): C".toList) =
      .ok ⟨[], [.union ["?A".toList, "callable(B): C".toList]]⟩ := by
  have read : parseType "?A | callable(B): C".toList =
      .ok (.union [.nullable (.name "A".toList), .callable "callable".toList [.name "B".toList]
        (some (.name "C".toList))], []) := by
    decide +kernel
  have first : StopsAt isBlank "?A | callable(B): C".toList :=
    (stopsAt_cons isBlank '?' _).mpr (by decide)
  have last : ∀ c ∈ "?A | callable(B): C".toList.getLast?, isBlank c = false := by
    intro c found
    obtain rfl : 'C' = c := Option.some.inj found
    decide
  exact parse_resultComment read (by decide) (by decide) first last

/-- The type of the object itself is read in full, and it cannot be declared as a result. -/
theorem parse_thisResult :
    parseType "$this".toList = .ok (.name "$this".toList, []) ∧
      parse "/** @return $this */".toList ≠ .ok ⟨[], [.single "$this".toList]⟩ := by
  refine ⟨by decide +kernel, ?_⟩
  decide +kernel

end DocSig.Docblock
