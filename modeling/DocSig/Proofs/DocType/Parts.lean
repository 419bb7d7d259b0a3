import DocSig.DocType.Equality
import DocSig.Proofs.DocType.Shape

/-!
What holds at every depth of a tree that was read.

`Part` leads from a tree to the trees in it and tells the arguments of generic types from all
others, since a star may stand there and nowhere else. `Fits` says of the topmost construct of a
part what its reader has checked. A tree is well shaped exactly if all of its parts fit
(`wellShaped_iff_parts`), so the subject of a condition, which the tree holds as text only, is the
text of a tree whose parts fit as well.
-/

set_option autoImplicit false

namespace DocSig.DocType

/-- A tree stands right below another one; whether it is an argument of a generic type. -/
inductive Child : DocType → Bool → DocType → Prop
  | nullable (inner : DocType) : Child (.nullable inner) false inner
  | array (item : DocType) : Child (.array item) false item
  | argument {base : Text} {arguments : List DocType} {argument : DocType} :
      argument ∈ arguments → Child (.generic base arguments) true argument
  | value {base : Text} {entries : List (ShapeEntry DocType)} {entry : ShapeEntry DocType} :
      entry ∈ entries → Child (.shape base entries) false entry.value
  | parameter {base : Text} {parameters : List DocType} {result : Option DocType}
      {parameter : DocType} :
      parameter ∈ parameters → Child (.callable base parameters result) false parameter
  | result {base : Text} {parameters : List DocType} {result : DocType} :
      Child (.callable base parameters (some result)) false result
  | target {subject : Text} {negated : Bool} {target positive negative : DocType} :
      Child (.conditional subject negated target positive negative) false target
  | positive {subject : Text} {negated : Bool} {target positive negative : DocType} :
      Child (.conditional subject negated target positive negative) false positive
  | negative {subject : Text} {negated : Bool} {target positive negative : DocType} :
      Child (.conditional subject negated target positive negative) false negative
  | member {members : List DocType} {member : DocType} :
      member ∈ members → Child (.union members) false member
  | conjunct {members : List DocType} {member : DocType} :
      member ∈ members → Child (.intersection members) false member

/-- A tree stands within another one: as the whole, or right below a tree within it. -/
inductive Part (whole : DocType) : Bool → DocType → Prop
  | top : Part whole false whole
  | down {inArguments isArgument : Bool} {part child : DocType} :
      Part whole inArguments part → Child part isArgument child → Part whole isArgument child

/-- The names of callable types, but for leading backslashes and the case of their letters. -/
def callableNames : List Text :=
  ["callable".toList, "closure".toList, "pure-callable".toList, "pure-closure".toList]

theorem isCallableName_iff {base : Text} :
    isCallableName base = true ↔ Text.lower (base.dropWhile (· == '\\')) ∈ callableNames :=
  List.contains_iff_mem

/-- What is true of the topmost construct of a tree that was read. -/
def Fits : DocType → Prop
  | .name s => isCompleteWord s = true
  | .literal s => isQuoted s = true ∨ isNumber s = true ∨
      ∃ name word, isCompleteWord name = true ∧ isConstant word = true ∧
        s = name ++ ':' :: ':' :: word
  | .nullable _ | .array _ => True
  | .generic base arguments => isCompleteWord base = true ∧ arguments ≠ []
  | .shape base entries => isCompleteWord base = true ∧ ∀ entry ∈ entries, EntryShaped entry
  | .callable base _ _ => isCompleteWord base = true ∧
      Text.lower (base.dropWhile (· == '\\')) ∈ callableNames
  | .conditional subject _ _ _ _ => ∃ type, WellShaped type ∧ type.text = subject
  | .union members => 2 ≤ members.length ∧ ∀ member ∈ members, ∀ inner, member ≠ .union inner
  | .intersection members => 2 ≤ members.length

/-- A part fits where it stands: only an argument of a generic type may be a star instead. -/
def FitsAt (isArgument : Bool) (part : DocType) : Prop :=
  Fits part ∨ isArgument = true ∧ part = star

theorem WellShaped.fits {type : DocType} (shaped : WellShaped type) : Fits type := by
  cases shaped with
  | name word => exact word
  | quoted word => exact Or.inl word
  | number word => exact Or.inr (Or.inl word)
  | constant name word => exact Or.inr (Or.inr ⟨_, _, name, word, rfl⟩)
  | nullable _ => exact trivial
  | array _ => exact trivial
  | generic name some _ => exact ⟨name, some⟩
  | shape name entries _ => exact ⟨name, entries⟩
  | callable name callable _ _ => exact ⟨name, isCallableName_iff.mp callable⟩
  | conditional subject _ _ _ => exact ⟨_, subject, rfl⟩
  | union several plain _ => exact ⟨several, plain⟩
  | intersection several _ => exact several

/-- One step down a tree. -/
theorem WellShaped.child {type child : DocType} {isArgument : Bool} (shaped : WellShaped type)
    (below : Child type isArgument child) :
    WellShaped child ∨ isArgument = true ∧ child = star := by
  cases below with
  | nullable inner => cases shaped with | nullable shape => exact Or.inl shape
  | array item => cases shaped with | array shape => exact Or.inl shape
  | argument found =>
      cases shaped with
      | generic _ _ shapes =>
          by_cases same : child = star
          · exact Or.inr ⟨rfl, same⟩
          · exact Or.inl (shapes child found same)
  | value found => cases shaped with | shape _ _ shapes => exact Or.inl (shapes _ found)
  | parameter found => cases shaped with | callable _ _ shapes _ => exact Or.inl (shapes _ found)
  | result => cases shaped with | callable _ _ _ shapes => exact Or.inl (shapes _ rfl)
  | target => cases shaped with | conditional _ shape _ _ => exact Or.inl shape
  | positive => cases shaped with | conditional _ _ shape _ => exact Or.inl shape
  | negative => cases shaped with | conditional _ _ _ shape => exact Or.inl shape
  | member found => cases shaped with | union _ _ shapes => exact Or.inl (shapes _ found)
  | conjunct found => cases shaped with | intersection _ shapes => exact Or.inl (shapes _ found)

/-- Nothing stands below a star. -/
theorem not_child_star {child : DocType} {isArgument : Bool} : ¬ Child star isArgument child :=
  nofun

/-- Every part of a well-shaped tree is well shaped, but for stars as arguments. -/
theorem WellShaped.part {type part : DocType} {isArgument : Bool} (shaped : WellShaped type)
    (within : Part type isArgument part) : WellShaped part ∨ isArgument = true ∧ part = star := by
  induction within with
  | top => exact Or.inl shaped
  | down _ child ih =>
      rcases ih with shape | ⟨-, rfl⟩
      · exact shape.child child
      · exact absurd child not_child_star

def PartsFit (type : DocType) : Prop :=
  ∀ isArgument part, Part type isArgument part → FitsAt isArgument part

theorem Child.sizeOf_lt {type child : DocType} {isArgument : Bool}
    (below : Child type isArgument child) : sizeOf child < sizeOf type := by
  cases below with
  | nullable | array => simp
  | target | positive | negative =>
      rw [conditional.sizeOf_spec]
      omega
  | result =>
      rw [callable.sizeOf_spec, Option.some.sizeOf_spec]
      omega
  | argument found | parameter found | member found | conjunct found =>
      have smaller := List.sizeOf_lt_of_mem found
      simp
      omega
  | @value _ _ entry found =>
      have smaller := List.sizeOf_lt_of_mem found
      obtain ⟨key, isOptional, value⟩ := entry
      simp at smaller ⊢
      omega

/-- A part of what stands right below a tree is a part of the tree. -/
theorem Part.of_child {type child part : DocType} {isArgument inArguments : Bool}
    (below : Child type inArguments child) (within : Part child isArgument part) :
    Part type isArgument part ∨ part = child := by
  induction within with
  | top => exact Or.inr rfl
  | down _ next ih =>
      rcases ih with inside | rfl
      · exact Or.inl (inside.down next)
      · exact Or.inl ((Part.top.down below).down next)

theorem PartsFit.child {type child : DocType} {isArgument : Bool} (fit : PartsFit type)
    (below : Child type isArgument child) (plain : isArgument = true → child ≠ star) :
    PartsFit child := by
  intro inArguments part within
  rcases within.of_child below with inside | rfl
  · exact fit inArguments part inside
  · rcases fit isArgument part (Part.top.down below) with fits | ⟨argument, same⟩
    · exact Or.inl fits
    · exact absurd same (plain argument)

theorem PartsFit.wellShaped {type : DocType} (fit : PartsFit type) : WellShaped type := by
  -- on the size of the tree, since its parts stand in lists
  induction size : sizeOf type using Nat.strongRecOn generalizing type with
  | ind size' ih =>
  have fits : Fits type := (fit false type .top).resolve_right nofun
  have below : ∀ {isArgument child}, Child type isArgument child →
      (isArgument = true → child ≠ star) → WellShaped child := fun child plain =>
    ih _ (size ▸ child.sizeOf_lt) (fit.child child plain) rfl
  cases type with
  | name s => exact .name fits
  | literal s =>
      rcases fits with quoted | number | ⟨name, word, complete, constant, rfl⟩
      · exact .quoted quoted
      · exact .number number
      · exact .constant complete constant
  | nullable inner => exact .nullable (below (.nullable inner) nofun)
  | array item => exact .array (below (.array item) nofun)
  | generic base arguments =>
      refine .generic fits.1 fits.2 ?_
      exact fun argument found plain => below (.argument found) fun _ => plain
  | shape base entries =>
      exact .shape fits.1 fits.2 fun entry found => below (.value found) nofun
  | callable base parameters result =>
      refine .callable fits.1 (isCallableName_iff.mpr fits.2)
        (fun parameter found => below (.parameter found) nofun) ?_
      rintro given rfl
      exact below .result nofun
  | conditional subject negated target positive negative =>
      obtain ⟨whole, shaped, rfl⟩ := fits
      exact .conditional shaped (below .target nofun) (below .positive nofun)
        (below .negative nofun)
  | union members => exact .union fits.1 fits.2 fun member found => below (.member found) nofun
  | intersection members =>
      exact .intersection fits fun member found => below (.conjunct found) nofun

/-- A tree is well shaped exactly if all of its parts fit. -/
theorem wellShaped_iff_parts {type : DocType} : WellShaped type ↔ PartsFit type := by
  refine ⟨fun shaped isArgument part within => ?_, PartsFit.wellShaped⟩
  exact (shaped.part within).imp_left WellShaped.fits

/-- All parts of a tree that was read fit, and the subject of each condition in it is the text of a
tree of which the same is true. -/
theorem parseType_partsFit {s rest : Text} {type : DocType}
    (read : parseType s = .ok (type, rest)) :
    PartsFit type ∧ ∀ isArgument subject negated target positive negative,
      Part type isArgument (.conditional subject negated target positive negative) →
        ∃ tree, PartsFit tree ∧ tree.text = subject := by
  have fit : PartsFit type := wellShaped_iff_parts.mp (wellShaped_of_parseType read)
  refine ⟨fit, fun isArgument subject negated target positive negative within => ?_⟩
  rcases fit _ _ within with ⟨tree, shaped, same⟩ | ⟨-, other⟩
  · exact ⟨tree, wellShaped_iff_parts.mp shaped, same⟩
  · cases other

/-- A condition about a union, with a callable and a shape in it. -/
def conditionText : Text :=
  "(A|list<*> is not B ? \\Closure(int): C[] : array\x7ba?: 'x', 1\x7d) text".toList

theorem parseType_partsFit_condition :
    ∃ type, parseType conditionText = .ok (type, " text".toList) ∧ PartsFit type ∧
      ∃ tree, PartsFit tree ∧ tree.text = "A|list<*>".toList := by
  have read : parseType conditionText =
      .ok (.conditional "A|list<*>".toList true (.name "B".toList)
        (.callable "\\Closure".toList [.name "int".toList] (some (.array (.name "C".toList))))
        (.shape "array".toList [⟨some "a".toList, true, .literal "'x'".toList⟩,
          ⟨none, false, .literal "1".toList⟩]), " text".toList) := by decide +kernel
  obtain ⟨fit, subjects⟩ := parseType_partsFit read
  exact ⟨_, read, fit, subjects _ _ _ _ _ _ .top⟩

end DocSig.DocType
