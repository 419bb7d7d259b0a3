import DocSig.Proofs.Outline.LetterCase
import DocSig.Proofs.Outline.Steps
import DocSig.Proofs.Text.Scan
import Mathlib.Data.List.TakeWhile

/-!
What an import does to the names behind it.

A recorded scope keeps its imports by their names in lower case (`lowerKeys_scope?`), so each of
them is found from a name in any case. It decides what the name means, and what a name below it
means, unless a rule before the imports does. Apart from the reserved names of the language, that
is so for the words that only annotations know, such as `resource`: they are taken for types,
though the language lets a class have the name (`resolve_imported`).
-/

set_option autoImplicit false

namespace DocSig

/-- Names that the language keeps from classes. -/
def reservedNames : List Text :=
  ["self", "static", "parent", "namespace", "int", "float", "string", "bool", "void", "never",
   "null", "false", "true", "array", "callable", "iterable", "mixed", "object",
   "list"].map String.toList

/-- Words that stand for a type in annotations alone. -/
def annotationWords : List Text :=
  ["integer", "double", "boolean", "resource", "scalar", "numeric", "non-empty-list",
   "non-empty-array", "array-key", "class-string", "positive-int", "negative-int",
   "non-empty-string", "numeric-string", "callable-string", "key-of", "value-of",
   "$this"].map String.toList

/-- The built-in types are reserved names and the words of annotations. -/
theorem isBuiltinType_of_free {name : Text} (free : name.lower ∉ reservedNames) :
    isBuiltinType name = decide (name.lower ∈ annotationWords) := by
  have builtin : ∀ word ∈ builtinTypes, word ∈ reservedNames ∨ word ∈ annotationWords := by decide
  have annotation : ∀ word ∈ annotationWords, word ∈ builtinTypes := by decide
  rw [isBuiltinType, List.contains_eq_mem, decide_eq_decide]
  constructor
  · intro found
    exact (builtin name.lower found).resolve_left free
  · exact annotation name.lower

/-- A part of a class name: not empty, and no backslash in it. -/
structure IsSegment (name : Text) : Prop where
  visible : name ≠ []
  solid : '\\' ∉ name

namespace Scope

/-- The names that are imported are kept in lower case. -/
def LowerKeys (scope : Scope) : Prop := ∀ item ∈ scope.imports, Text.lower item.1 = item.1

theorem LowerKeys.addImports {scope : Scope} (given : scope.LowerKeys) (list : List Import) :
    (scope.addImports list).LowerKeys := by
  induction list generalizing scope with
  | nil => exact given
  | cons item list ih => exact ih (List.forall_mem_cons.mpr ⟨Text.lower_lower item.short, given⟩)

end Scope

namespace NameTable

open Lexical

theorem lowerKeys_kept : Kept Scope.LowerKeys fun _ => True where
  entered scope entry given _ := by
    unfold entered
    split
    · intro item found
      cases found
    · exact given
    · exact given
    · exact given
  imports scope entry given _ := given.addImports entry.kind.importList

/-- What is recorded at a function is the scope in force there, outside of the class around if the
function is free. -/
theorem scope_of_namingAt {scope inner : Scope} {entry : Entry} {naming : Naming}
    (noted : namingAt inner entry = some naming) (found : naming.scope = some scope) :
    scope = inner.inFunction ∨ scope = inner := by
  unfold namingAt at noted
  split at noted
  case h_6 =>
    cases noted
    exact .inl (Option.some.inj found).symm
  case h_7 =>
    cases noted
    exact .inr (Option.some.inj found).symm
  case h_8 =>
    cases noted
    unfold ofReference at found
    split at found <;> cases found
  all_goals
    cases noted
    try cases found

/-- Every recorded scope keeps its imports in lower case. -/
theorem lowerKeys_scope? {outline : Outline} {id : Nat} {scope : Scope}
    (recorded : (ofOutline outline).scope? id = some scope) : scope.LowerKeys := by
  obtain ⟨naming, found, same⟩ := Option.bind_eq_some_iff.mp recorded
  have walked := lowerKeys_kept.walk outline.root Scope.outermost nofun fun _ _ => trivial
  obtain ⟨inner, entry, given, -, noted⟩ := walked.2 naming (List.mem_of_find?_eq_some found)
  rcases scope_of_namingAt noted same with rfl | rfl
  · exact given
  · exact given

end NameTable

section Import

variable {scope : Scope} {first short target : Text}

/-- What is imported is in lower case where it is kept. -/
theorem Scope.LowerKeys.lower_short (given : scope.LowerKeys)
    (imported : scope.imports.lookup short = some target) : short.lower = short := by
  obtain ⟨later, earlier, whole, -⟩ := List.lookup_eq_some_iff.mp imported
  exact given (short, target) (whole ▸ List.mem_append_cons_self)

theorem IsSegment.of_lower_eq (segment : IsSegment short) (same : first.lower = short.lower) :
    IsSegment first where
  visible empty := segment.visible (by simpa [empty] using same.symm)
  solid mark := segment.solid
    (Text.backslash_mem_lower.mp (same ▸ Text.backslash_mem_lower.mpr mark))

theorem IsSegment.chars (segment : IsSegment first) : ∀ c ∈ first, (c != '\\') = true :=
  fun _ found => bne_iff_ne.mpr fun same => segment.solid (same ▸ found)

/-- A segment ends at the backslash behind it. -/
theorem IsSegment.takeWhile (segment : IsSegment first) {tail : Text}
    (ends : StopsAt (· != '\\') tail) : (first ++ tail).takeWhile (· != '\\') = first :=
  takeWhile_word _ first tail segment.chars ends

theorem IsSegment.dropWhile (segment : IsSegment first) {tail : Text}
    (ends : StopsAt (· != '\\') tail) : (first ++ tail).dropWhile (· != '\\') = tail :=
  dropWhile_word _ first tail segment.chars ends

theorem IsSegment.unmarked (segment : IsSegment first) (tail : Text) :
    Text.after? ['\\'] (first ++ tail) = none := by
  cases first with
  | nil => exact absurd rfl segment.visible
  | cons c first =>
      have other : '\\' ≠ c := fun same => segment.solid (same ▸ List.mem_cons_self)
      simp [Text.after?, other]

/-- No reserved name and no built-in type is qualified. -/
theorem isOrdinary_qualified (segment : IsSegment first) (free : first.lower ∉ reservedNames)
    (rest : Text) : IsOrdinary (first ++ '\\' :: rest) := by
  have mark : '\\' ∈ Text.lower (first ++ '\\' :: rest) := by simp
  have solid : ∀ word ∈ reservedNames ++ builtinTypes, '\\' ∉ word := by decide
  have apart : ∀ word ∈ reservedNames ++ builtinTypes,
      Text.lower (first ++ '\\' :: rest) ≠ word := fun word found same =>
    solid word found (same ▸ mark)
  exact
    { visible := by simp
      noOwn := not_or.mpr ⟨apart _ (by decide), apart _ (by decide)⟩
      noParent := apart _ (by decide)
      noType := by
        rw [isBuiltinType, List.contains_eq_mem, decide_eq_false_iff_not]
        exact fun found => apart _ (List.mem_append_right _ found) rfl
      unmarked := segment.unmarked _
      noRelative := by
        rw [← Bool.not_eq_true, List.isPrefixOf_iff_prefix]
        rintro ⟨behind, same⟩
        -- up to the first backslash the name would be the word itself
        have front := congrArg (List.takeWhile (· != '\\')) same
        rw [← Text.lower_takeWhile, segment.takeWhile (by simp)] at front
        have word : ("namespace".toList ++ '\\' :: behind).takeWhile (· != '\\') =
            "namespace".toList := IsSegment.takeWhile ⟨by decide, by decide⟩ (by simp)
        exact free (front ▸ word ▸ by decide) }

/-- An ordinary name begins with a segment. -/
theorem IsOrdinary.segment {name : Text} (ordinary : IsOrdinary name) :
    IsSegment (name.takeWhile (· != '\\')) where
  visible := by
    cases name with
    | nil => exact absurd rfl ordinary.visible
    | cons c name =>
        have other : c ≠ '\\' := by
          rintro rfl
          cases ordinary.unmarked
        simp [other]
  solid mark := absurd (List.mem_takeWhile_imp mark) (by decide)

/-- A segment that is not reserved is ordinary, unless it is a word of annotations. -/
theorem IsSegment.isOrdinary (segment : IsSegment first) (free : first.lower ∉ reservedNames)
    (other : first.lower ∉ annotationWords) : IsOrdinary first where
  visible := segment.visible
  noOwn := by
    rintro (same | same)
    · exact free (same ▸ by decide)
    · exact free (same ▸ by decide)
  noParent same := free (same ▸ by decide)
  noType := by
    rw [isBuiltinType_of_free free]
    exact decide_eq_false other
  unmarked := by simpa using segment.unmarked []
  noRelative := by
    rw [← Bool.not_eq_true, List.isPrefixOf_iff_prefix]
    intro relative
    exact segment.solid (Text.backslash_mem_lower.mp (relative.subset (by decide)))

/-- What is imported stands in the place of the first part of an ordinary name. -/
theorem resolve_first (segment : IsSegment first) {tail : Text}
    (ends : StopsAt (· != '\\') tail) (ordinary : IsOrdinary (first ++ tail))
    (imported : scope.imported? first = some target) :
    scope.resolve (first ++ tail) = .resolved (target ++ tail) := by
  rw [scope.resolve_ordinary ordinary, Scope.resolvePlain, segment.takeWhile ends,
    segment.dropWhile ends, imported]

/-- What is kept under another key is found as before. -/
theorem lookup_filter_ne {imports : List (Text × Text)} {key : Text} (other : key ≠ short) :
    (imports.filter fun item => item.1 != short).lookup key = imports.lookup key := by
  induction imports with
  | nil => rfl
  | cons item imports ih =>
      rw [List.filter_cons, List.lookup_cons]
      split
      · rw [List.lookup_cons, ih]
      · next same =>
          have gone : (key == item.1) = false := by
            simp only [bne_iff_ne, not_not] at same
            simpa [same] using other
          rw [gone, ih]

/-- An import that is kept under no single segment is never found. -/
theorem resolve_unsegmented (scope : Scope) (odd : ¬ IsSegment short) (name : Text) :
    (Scope.mk scope.space (scope.imports.filter fun item => item.1 != short)
      scope.enclosing).resolve name = scope.resolve name := by
  by_cases ordinary : IsOrdinary name
  · have other : Text.lower (name.takeWhile (· != '\\')) ≠ short := fun same =>
      odd (ordinary.segment.of_lower_eq (by rw [← same, Text.lower_lower]))
    rw [Scope.resolve_ordinary _ ordinary, Scope.resolve_ordinary _ ordinary, Scope.resolvePlain,
      Scope.resolvePlain, Scope.imported?, Scope.imported?, lookup_filter_ne other]
    rfl
  · exact scope.resolve_imports ordinary _

/-- Behind an import that the language allows, its name in any case means what is imported, unless
it is a word of annotations, which is taken for a built-in type; and a qualified name that begins
with it in any case always means what lies below. An import that is kept under no single segment
plays no part. -/
theorem resolve_imported {outline : Outline} {id : Nat}
    (recorded : (NameTable.ofOutline outline).scope? id = some scope)
    (imported : scope.imports.lookup short = some target) (free : short.lower ∉ reservedNames) :
    (IsSegment short → ∀ first, first.lower = short.lower →
      (scope.resolve first =
        if short.lower ∈ annotationWords then .builtin first else .resolved target) ∧
      ∀ rest, scope.resolve (first ++ '\\' :: rest) = .resolved (target ++ '\\' :: rest)) ∧
    (¬ IsSegment short → ∀ name,
      (Scope.mk scope.space (scope.imports.filter fun item => item.1 != short)
        scope.enclosing).resolve name = scope.resolve name) := by
  refine ⟨?_, resolve_unsegmented scope⟩
  intro segment first same
  have kept := (NameTable.lowerKeys_scope? recorded).lower_short imported
  have found : scope.imported? first = some target := by
    rw [Scope.imported?, same, kept, imported]
  have own := segment.of_lower_eq same
  refine ⟨?_, fun rest => ?_⟩
  · split
    case isTrue word =>
      refine resolve_builtin scope ?_
      rw [isBuiltinType_of_free (same ▸ free), same]
      exact decide_eq_true word
    case isFalse other =>
      have ordinary := own.isOrdinary (same ▸ free) (same ▸ other)
      have alone := resolve_first own (stopsAt_nil _) (by rwa [List.append_nil]) found
      rwa [List.append_nil, List.append_nil] at alone
  · exact resolve_first own (by simp) (isOrdinary_qualified own (same ▸ free) rest) found

end Import

/-- In the second method of `nestedImports` the import of the first counts, which is the later one
of its name. -/
theorem resolve_nestedImports :
    ∃ scope, (NameTable.ofOutline nestedImports).scope? 6 = some scope ∧
      scope.imports.lookup "b".toList = some "Other".toList ∧
      Text.lower "b".toList ∉ reservedNames ∧ IsSegment "b".toList ∧
      scope.resolve "B".toList = .resolved "Other".toList ∧
      scope.resolve "B\\Part".toList = .resolved "Other\\Part".toList := by
  obtain ⟨scope, recorded⟩ :
      ∃ scope, (NameTable.ofOutline nestedImports).scope? 6 = some scope := ⟨_, rfl⟩
  have imported : scope.imports.lookup "b".toList = some "Other".toList := by
    cases recorded
    decide +kernel
  have free : Text.lower "b".toList ∉ reservedNames := by decide
  have segment : IsSegment "b".toList := ⟨by decide, by decide⟩
  obtain ⟨alone, below⟩ :=
    (resolve_imported recorded imported free).1 segment "B".toList (by decide)
  exact ⟨scope, recorded, imported, free, segment, alone.trans (if_neg (by decide)),
    below "Part".toList⟩

def resourceImport : Outline :=
  ((Outline.empty.push 0 ⟨.space (some "App".toList), 2, none⟩).push 1
    ⟨.imports [⟨"Resource".toList, "Lib\\Resource".toList⟩], 3, none⟩).push 1
    ⟨.function .free "f".toList, 5, none⟩

/-- A class `Resource` that is imported is taken for a built-in type all the same. -/
theorem resolve_resourceImport :
    ∃ scope, (NameTable.ofOutline resourceImport).scope? 3 = some scope ∧
      scope.imports.lookup (Text.lower "Resource".toList) = some "Lib\\Resource".toList ∧
      Text.lower "Resource".toList ∉ reservedNames ∧
      scope.resolve "Resource".toList = .builtin "Resource".toList := by
  refine ⟨_, rfl, ?_, ?_, ?_⟩
  · decide +kernel
  · decide
  · decide +kernel

end DocSig
