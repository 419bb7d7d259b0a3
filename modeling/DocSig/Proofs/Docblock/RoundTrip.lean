import DocSig.Docblock.Basic
import DocSig.Proofs.DocType.Progress
import DocSig.Proofs.DocType.RoundTrip
import DocSig.Proofs.Docblock.Tags

/-!
A comment that declares parameters and a result, one in each line, is read back.

The tag layer gives the body of each tag without the white space at its end
(`tags?_commentText`). A type is read off the front of a body if the grammar reads it back before
what may follow it there (`StandsInTag`), and the variable is read off what the type leaves.
-/

set_option autoImplicit false

namespace DocSig.Docblock

open DocType

/-- A variable as it is written, with the marks that may stand before it. -/
def variableText (byReference variadic : Bool) (rest : Text) : Text :=
  (if byReference then ['&'] else []) ++
    ((if variadic then ['.', '.', '.'] else []) ++ '$' :: rest)

/-- The words behind the type or the variable of a tag. -/
def descriptionText : Option Text → Text
  | none => []
  | some words => ' ' :: words

/-- A type that a tag can give: the grammar reads it back from a body that it stands at the front
of, and it takes up no other tag's place. -/
structure StandsInTag (type : DocType) : Prop where
  alone : parseType type.text = .ok (type, [])
  beforeWords : ∀ c more, c.isAlpha = true →
    parseType (type.text ++ ' ' :: c :: more) = .ok (type, ' ' :: c :: more)
  beforeVariable : ∀ byReference variadic more,
    parseType (type.text ++ ' ' :: variableText byReference variadic more) =
      .ok (type, ' ' :: variableText byReference variadic more)
  noVariable : type.text.head? ≠ some '$'
  asciiBlank : ∀ c ∈ type.text, isBlank c = true → isAscii c = true
  plain : IsPlain type.text

structure IsDescription (words : Text) : Prop where
  letter : ∃ c more, words = c :: more ∧ c.isAlpha = true
  plain : IsPlain words

structure ParameterLine where
  type : DocType
  byReference : Bool
  variadic : Bool
  name : Text
  description : Option Text

structure ResultLine where
  type : DocType
  description : Option Text

structure ParameterLine.Fits (line : ParameterLine) : Prop where
  type : StandsInTag line.type
  named : line.name ≠ []
  wordChars : ∀ c ∈ line.name, isVariableChar c = true
  description : ∀ words ∈ line.description, IsDescription words

structure ResultLine.Fits (line : ResultLine) : Prop where
  type : StandsInTag line.type
  description : ∀ words ∈ line.description, IsDescription words

def ParameterLine.tag (line : ParameterLine) : Tag :=
  ⟨"@param".toList, line.type.text ++ ' ' :: variableText line.byReference line.variadic
    (line.name ++ descriptionText line.description)⟩

def ResultLine.tag (line : ResultLine) : Tag :=
  ⟨"@return".toList, line.type.text ++ descriptionText line.description⟩

/-- A comment with a line for each parameter, and behind them one for the result, if any. -/
def declarationText (parameters : List ParameterLine) (result : Option ResultLine) : Text :=
  commentText (parameters.map ParameterLine.tag ++ result.toList.map ResultLine.tag)

def blankCodes : List Nat :=
  [9, 10, 11, 12, 13, 0x20, 0x85, 0xA0, 0x1680] ++ List.range' 0x2000 11 ++
    [0x2028, 0x2029, 0x202F, 0x205F, 0x3000]

theorem mem_blankCodes {c : Char} (blank : isBlank c = true) : c.toNat ∈ blankCodes := by
  simp only [isBlank, Bool.or_eq_true, Bool.and_eq_true, decide_eq_true_eq, beq_iff_eq] at blank
  simp only [blankCodes, List.mem_append, List.mem_cons, List.not_mem_nil, or_false,
    List.mem_range'_1]
  omega

/-- A class of characters without white space, checked at each of its code points. -/
theorem not_isBlank_of_class {class? : Char → Bool}
    (outside : (blankCodes.all fun n => !class? (Char.ofNat n)) = true) {c : Char}
    (inside : class? c = true) : isBlank c = false := by
  by_contra blank
  have excluded := of_codes (fun c => !class? c) (mem_blankCodes (by simpa using blank)) outside
  rw [inside] at excluded
  cases excluded

/-- No letter or number of any script is white space. -/
theorem not_isBlank_of_isVariableChar {c : Char} (word : isVariableChar c = true) :
    isBlank c = false :=
  not_isBlank_of_class (by decide +kernel) word

theorem not_isBlank_of_isAlpha {c : Char} (letter : c.isAlpha = true) : isBlank c = false :=
  not_isBlank_of_class (by decide) letter

theorem isPlain_of_isVariableChar {name : Text} (all : ∀ c ∈ name, isVariableChar c = true) :
    IsPlain name := by
  intro c found
  refine ⟨?_, ?_, ?_⟩ <;> rintro rfl <;> exact absurd (all _ found) (by decide +kernel)

/-- A printable type stands in a tag if its words do not bring in anything that tags look at. -/
theorem standsInTag_of_printable {type : DocType} (printable : Printable type)
    (noVariable : type.text.head? ≠ some '$')
    (asciiBlank : ∀ c ∈ type.text, isBlank c = true → isAscii c = true)
    (plain : IsPlain type.text) : StandsInTag type := by
  have behindSpace : ∀ more, Follows 0 type (' ' :: more) →
      parseType (type.text ++ ' ' :: more) = .ok (type, ' ' :: more) := by
    refine fun more follows => parseType_behind printable _ follows ?_
    intro c found
    cases found
    decide
  refine ⟨?_, ?_, ?_, noVariable, asciiBlank, plain⟩
  · simpa using parseType_behind printable [] (follows_nil 0 type) nofun
  · intro c more letter
    refine behindSpace _ (follows_of_space 0 type c more (not_isBlank_of_isAlpha letter) ?_ ?_)
    · constructor <;> rintro rfl <;> revert letter <;> decide
    · rintro - rfl
      revert letter
      decide
  · intro byReference variadic more
    cases byReference with
    | false =>
        refine behindSpace _ ?_
        cases variadic with
        | false => exact follows_of_space 0 type '$' more (by decide) (by decide) fun _ => by decide
        | true => exact follows_of_space 0 type '.' _ (by decide) (by decide) fun _ => by decide
    | true =>
        refine behindSpace _ (follows_of_reference type _ ?_)
        cases variadic <;> rfl

/-- A tag's type begins with a character that is neither white space nor a mark of a variable. -/
theorem StandsInTag.head {type : DocType} (stands : StandsInTag type) :
    ∃ c more, type.text = c :: more ∧ startsType c = true ∧ isBlank c = false ∧ c ≠ '$' := by
  obtain ⟨c, more, shape, start⟩ := parseType_head stands.alone
  have noVariable : c ≠ '$' := by
    rintro rfl
    exact stands.noVariable (by simp [shape])
  refine ⟨c, more, shape, start, ?_, noVariable⟩
  by_contra blank
  have space : isBlank c = true := by simpa using blank
  rcases ascii_blank_cases c (stands.asciiBlank c (by simp [shape]) space) space with
    rfl | rfl | rfl | rfl | rfl | rfl <;> revert start <;> decide

theorem StandsInTag.last {type : DocType} (stands : StandsInTag type) :
    ∀ c ∈ type.text.getLast?, isBlank c = false := by
  obtain ⟨front, last, shape, visible⟩ := parseType_took stands.alone
  intro c found
  rw [shape, List.getLast?_concat] at found
  cases found
  by_contra blank
  have ascii := stands.asciiBlank last (by simp [shape]) (by simpa using blank)
  exact blank (visible ascii)

theorem parseTagType_text {type : DocType} (stands : StandsInTag type) (label rest : Text)
    (read : parseType (type.text ++ rest) = .ok (type, rest)) :
    parseTagType label (type.text ++ rest) = .ok (type.toAlternatives, rest) := by
  obtain ⟨c, more, shape, start, solid, noVariable⟩ := stands.head
  have whole : Text.trimStart (type.text ++ rest) = type.text ++ rest := by
    rw [shape]
    exact Text.trimStart_cons_solid c (more ++ rest) solid
  have reference := ne_of_startsType start (d := '&') (by decide)
  have dot := ne_of_startsType start (d := '.') (by decide)
  have given : lacksType (type.text ++ rest) = false := by
    simp [shape, lacksType, List.isPrefixOf, noVariable.symm, reference.symm, dot.symm]
  simp only [parseTagType, whole, given, Bool.false_eq_true, ↓reduceIte, read]

theorem variableText_append (byReference variadic : Bool) (name rest : Text) :
    variableText byReference variadic (name ++ rest) =
      variableText byReference variadic name ++ rest := by
  simp [variableText]

/-- The variable is found behind its marks and ends where its name ends. -/
theorem variableAt_variableText (byReference variadic : Bool) (name rest : Text)
    (some : name ≠ []) (all : ∀ c ∈ name, isVariableChar c = true)
    (stop : StopsAt isVariableChar rest) :
    variableAt (' ' :: variableText byReference variadic (name ++ rest)) =
      Option.some ('$' :: name) := by
  have word := takeWhile_word isVariableChar name rest all stop
  have behindMarks : ((Text.trimStart (' ' :: variableText byReference variadic (name ++ rest))
      |>.dropOptional ['&']).dropOptional ['.', '.', '.']) = '$' :: (name ++ rest) := by
    rw [Text.trimStart_space]
    cases byReference <;> cases variadic <;> rfl
  have nonempty : name.isEmpty = false := by simpa using some
  simp only [variableAt, behindMarks, word, nonempty, Bool.false_eq_true, ↓reduceIte]

/-- A description loses at most the white space at its end. -/
theorem trimEnd_descriptionText {description : Option Text}
    (fits : ∀ words ∈ description, IsDescription words) :
    Text.trimEnd (descriptionText description) = [] ∧ description = none ∨
      ∃ c more, Text.trimEnd (descriptionText description) = ' ' :: c :: more ∧
        c.isAlpha = true := by
  cases description with
  | none => exact Or.inl ⟨rfl, rfl⟩
  | some words =>
      obtain ⟨c, more, rfl, letter⟩ := (fits words rfl).letter
      refine Or.inr ⟨c, Text.trimEnd more, ?_, letter⟩
      refine Text.trimEnd_append [' ', c] more ?_
      intro d found
      cases found
      exact not_isBlank_of_isAlpha letter

theorem parseParameter_tag {line : ParameterLine} (fits : line.Fits) :
    parseParameter line.tag.body.trimEnd = .ok ⟨'$' :: line.name, line.type.toAlternatives⟩ := by
  have stop : StopsAt isVariableChar (Text.trimEnd (descriptionText line.description)) := by
    rcases trimEnd_descriptionText fits.description with ⟨empty, -⟩ | ⟨c, more, words, -⟩
    · rw [empty]
      exact stopsAt_nil isVariableChar
    · rw [words, stopsAt_cons]
      decide +kernel
  have cut : line.tag.body.trimEnd = line.type.text ++ ' ' :: variableText line.byReference
      line.variadic (line.name ++ Text.trimEnd (descriptionText line.description)) := by
    have solid : ∀ c ∈ (line.type.text ++ ' ' :: variableText line.byReference line.variadic
        line.name).getLast?, isBlank c = false := by
      intro c found
      obtain ⟨front, last, name⟩ : ∃ front last, line.name = front ++ [last] :=
        ⟨_, _, (List.dropLast_append_getLast fits.named).symm⟩
      rw [name, variableText_append, ← List.cons_append, ← List.append_assoc,
        List.getLast?_concat] at found
      cases found
      exact not_isBlank_of_isVariableChar (fits.wordChars _ (by simp [name]))
    have trimmed := Text.trimEnd_append _ (descriptionText line.description) solid
    simpa [ParameterLine.tag, variableText_append] using trimmed
  rw [cut, parseParameter, parseTagType_text fits.type _ _ (fits.type.beforeVariable _ _ _)]
  simp only [bind, Except.bind]
  rw [variableAt_variableText _ _ _ _ fits.named fits.wordChars stop]
  rfl

theorem parseTagType_tag {line : ResultLine} (fits : line.Fits) (label : Text) :
    ∃ rest, parseTagType label line.tag.body.trimEnd = .ok (line.type.toAlternatives, rest) := by
  have cut : line.tag.body.trimEnd =
      line.type.text ++ Text.trimEnd (descriptionText line.description) :=
    Text.trimEnd_append _ _ fits.type.last
  refine ⟨Text.trimEnd (descriptionText line.description), ?_⟩
  rw [cut]
  refine parseTagType_text fits.type label _ ?_
  rcases trimEnd_descriptionText fits.description with ⟨empty, -⟩ | ⟨c, more, words, letter⟩
  · rw [empty, List.append_nil]
    exact fits.type.alone
  · rw [words]
    exact fits.type.beforeWords c more letter

theorem isPlain_descriptionText {description : Option Text}
    (fits : ∀ words ∈ description, IsDescription words) :
    IsPlain (descriptionText description) := by
  cases description with
  | none => exact isPlain_nil
  | some words => exact (isPlain_cons _ _).mpr ⟨by decide, (fits words rfl).plain⟩

theorem StandsInTag.stops {type : DocType} (stands : StandsInTag type) (rest : Text) :
    StopsAt isBlank (type.text ++ rest) := by
  obtain ⟨c, more, shape, -, solid, -⟩ := stands.head
  rw [shape, List.cons_append, stopsAt_cons]
  exact solid

theorem fitsLine_parameter {line : ParameterLine} (fits : line.Fits) : FitsLine line.tag := by
  have marks : IsPlain (variableText line.byReference line.variadic []) := by
    cases line.byReference <;> cases line.variadic <;> simp [variableText]
  have name := isPlain_of_isVariableChar fits.wordChars
  refine ⟨⟨'p', "aram".toList, rfl, by decide, forall_of_all (by decide)⟩, fits.type.stops _, ?_⟩
  have behind : IsPlain (variableText line.byReference line.variadic
      (line.name ++ descriptionText line.description)) := by
    rw [← List.nil_append (line.name ++ _), variableText_append]
    simp [marks, name, isPlain_descriptionText fits.description]
  exact (isPlain_append _ _).mpr ⟨fits.type.plain, (isPlain_cons _ _).mpr ⟨by decide, behind⟩⟩

theorem fitsLine_result {line : ResultLine} (fits : line.Fits) : FitsLine line.tag :=
  ⟨⟨'r', "eturn".toList, rfl, by decide, forall_of_all (by decide)⟩, fits.type.stops _,
    (isPlain_append _ _).mpr ⟨fits.type.plain, isPlain_descriptionText fits.description⟩⟩

theorem ofTags_parameters (parameters : List ParameterLine) (tags : List Tag) (doc : Docblock)
    (fit : ∀ line ∈ parameters, line.Fits) (others : ofTags tags = .ok doc) :
    ofTags (parameters.map (fun line => ⟨line.tag.label, line.tag.body.trimEnd⟩) ++ tags) =
      .ok ⟨parameters.map (fun line => ⟨'$' :: line.name, line.type.toAlternatives⟩) ++
        doc.parameters, doc.results⟩ := by
  induction parameters with
  | nil => exact others
  | cons line parameters ih =>
      have label : line.tag.label = "@param".toList := rfl
      rw [List.map_cons, List.cons_append, ofTags]
      simp only [label, ↓reduceIte, parseParameter_tag (fit line (by simp)),
        ih fun other found => fit other (List.mem_cons_of_mem line found)]
      rfl

theorem ofTags_result (result : Option ResultLine) (fits : ∀ line ∈ result, line.Fits) :
    ofTags (result.toList.map fun line => ⟨line.tag.label, line.tag.body.trimEnd⟩) =
      .ok ⟨[], result.toList.map fun line => line.type.toAlternatives⟩ := by
  cases result with
  | none => rfl
  | some line =>
      have label : line.tag.label = "@return".toList := rfl
      have other : "@return".toList ≠ "@param".toList := by decide
      obtain ⟨rest, read⟩ := parseTagType_tag (fits line rfl) "@return".toList
      simp only [Option.toList_some, List.map_cons, List.map_nil, ofTags, label, other, ↓reduceIte,
        read]
      rfl

/-- A comment declares exactly the parameters and the result that its lines were made of. -/
theorem parse_declarationText (parameters : List ParameterLine) (result : Option ResultLine)
    (parametersFit : ∀ line ∈ parameters, line.Fits) (resultFits : ∀ line ∈ result, line.Fits) :
    Docblock.parse (declarationText parameters result) =
      .ok ⟨parameters.map fun line => ⟨'$' :: line.name, line.type.toAlternatives⟩,
        result.toList.map fun line => line.type.toAlternatives⟩ := by
  -- the tag layer gives every body without the white space at its end; the type layer reads it
  have fit : ∀ tag ∈ parameters.map ParameterLine.tag ++ result.toList.map ResultLine.tag,
      FitsLine tag := by
    intro tag found
    rcases List.mem_append.mp found with parameter | result
    · obtain ⟨line, inside, rfl⟩ := List.mem_map.mp parameter
      exact fitsLine_parameter (parametersFit line inside)
    · obtain ⟨line, inside, rfl⟩ := List.mem_map.mp result
      exact fitsLine_result (resultFits line (Option.mem_toList.mp inside))
  have tags := tags?_commentText _ fit
  rw [List.map_append, List.map_map, List.map_map] at tags
  have declared := ofTags_parameters parameters _ _ parametersFit (ofTags_result result resultFits)
  rw [List.append_nil] at declared
  unfold Docblock.parse declarationText
  rw [tags]
  exact declared

theorem parse_variedComment :
    Docblock.parse (declarationText
        [⟨variedType, true, true, "x_1".toList, some "the rest ".toList⟩,
          ⟨.union [.name "A".toList, .name "B".toList], false, false, "y".toList, none⟩]
        (some ⟨.nullable (.name "Foo".toList), some "or nothing".toList⟩)) =
      .ok ⟨[⟨"$x_1".toList, variedType.toAlternatives⟩,
          ⟨"$y".toList, .union ["A".toList, "B".toList]⟩], [.single "?Foo".toList]⟩ := by
  have varied : StandsInTag variedType :=
    standsInTag_of_printable printable_variedType (by decide +kernel)
      (forall_of_all (by decide +kernel)) (by decide +kernel)
  have names : ∀ s ∈ ["A", "B", "Foo"].map String.toList, Printable (.name s) :=
    fun s found => .name (by revert s; decide)
  have union : StandsInTag (.union [.name "A".toList, .name "B".toList]) :=
    standsInTag_of_printable
      (.union (by simp) (by simp) (by simpa using ⟨names _ (by decide), names _ (by decide)⟩))
      (by decide) (forall_of_all (by decide)) (by decide)
  have nullable : StandsInTag (.nullable (.name "Foo".toList)) :=
    standsInTag_of_printable (.nullable rfl (names _ (by decide))) (by decide)
      (forall_of_all (by decide)) (by decide)
  have described : ∀ words ∈ ["the rest ", "or nothing"].map String.toList,
      IsDescription words := by
    simp only [List.map_cons, List.map_nil, List.forall_mem_cons]
    exact ⟨⟨⟨'t', _, rfl, by decide⟩, by decide⟩, ⟨⟨'o', _, rfl, by decide⟩, by decide⟩, nofun⟩
  refine parse_declarationText _ _ ?_ ?_
  · simp only [List.forall_mem_cons]
    refine ⟨⟨varied, by decide, forall_of_all (by decide +kernel), ?_⟩,
      ⟨union, by decide, forall_of_all (by decide +kernel), nofun⟩, nofun⟩
    intro words found
    cases found
    exact described _ (by decide)
  · intro line found
    cases found
    refine ⟨nullable, ?_⟩
    intro words found
    cases found
    exact described _ (by decide)

end DocSig.Docblock
