import DocSig.Proofs.Outline.Resolution
import Mathlib.Logic.Basic

/-!
Letter case plays no part in what a name means.

Every rule looks at a name in lower case, or at where its backslashes stand, which letter case
does not move. So two names that differ in case alone have the same meaning up to case
(`resolve_of_lower_eq`), and what an import or the class around gives is the same to the letter.
-/

set_option autoImplicit false

namespace DocSig

/-- Lower case moves the capitals to the small letters, and nothing else. -/
theorem toLower_cases (c : Char) :
    c.isUpper = true ∧ c.toLower.isLower = true ∨ c.isUpper = false ∧ c.toLower = c := by
  unfold Char.toLower
  split
  · next capital =>
      refine Or.inl ⟨decide_eq_true capital, ?_⟩
      obtain ⟨first, last⟩ := capital
      unfold Char.isLower
      simp only [ge_iff_le, Bool.and_eq_true, decide_eq_true_eq, UInt32.le_iff_toNat_le,
        UInt32.toNat_add] at first last ⊢
      have shift : ('a'.val - 'A'.val).toNat = 32 := rfl
      have small : 'a'.val.toNat = 97 ∧ 'z'.val.toNat = 122 := ⟨rfl, rfl⟩
      have large : 'A'.val.toNat = 65 ∧ 'Z'.val.toNat = 90 := ⟨rfl, rfl⟩
      rw [shift]
      omega
  · next other => exact Or.inr ⟨decide_eq_false other, rfl⟩

theorem toLower_toLower (c : Char) : c.toLower.toLower = c.toLower := by
  rcases toLower_cases c.toLower with ⟨upper, -⟩ | ⟨-, stays⟩
  · rcases toLower_cases c with ⟨-, lower⟩ | ⟨other, stays⟩
    · unfold Char.isUpper at upper
      unfold Char.isLower at lower
      simp only [ge_iff_le, Bool.and_eq_true, decide_eq_true_eq, UInt32.le_iff_toNat_le]
        at upper lower
      have marks : 'Z'.val.toNat = 90 ∧ 'a'.val.toNat = 97 := ⟨rfl, rfl⟩
      omega
    · rw [stays, other] at upper
      cases upper
  · exact stays

/-- Only a letter becomes a letter in lower case. -/
theorem toLower_eq_iff {c mark : Char} (noLetter : mark.isAlpha = false) :
    c.toLower = mark ↔ c = mark := by
  unfold Char.isAlpha at noLetter
  rw [Bool.or_eq_false_iff] at noLetter
  constructor
  · rintro rfl
    rcases toLower_cases c with ⟨-, lower⟩ | ⟨-, stays⟩
    · rw [lower] at noLetter
      cases noLetter.2
    · exact stays.symm
  · rintro rfl
    rcases toLower_cases c with ⟨upper, -⟩ | ⟨-, stays⟩
    · rw [upper] at noLetter
      cases noLetter.1
    · exact stays

namespace Text

@[simp] theorem lower_nil : lower [] = [] := rfl

@[simp] theorem lower_cons (c : Char) (s : Text) : lower (c :: s) = c.toLower :: lower s := rfl

@[simp] theorem lower_append (s t : Text) : lower (s ++ t) = lower s ++ lower t := List.map_append

@[simp] theorem lower_lower (s : Text) : lower (lower s) = lower s := by
  rw [lower, lower, List.map_map]
  exact List.map_congr_left fun c _ => toLower_toLower c

@[simp] theorem lower_eq_nil {s : Text} : lower s = [] ↔ s = [] := List.map_eq_nil_iff

@[simp] theorem backslash_mem_lower {s : Text} : '\\' ∈ lower s ↔ '\\' ∈ s := by
  simp [lower, List.mem_map, toLower_eq_iff (show '\\'.isAlpha = false by decide)]

theorem noBackslash_toLower (c : Char) : (c.toLower != '\\') = (c != '\\') := by
  have same : c.toLower = '\\' ↔ c = '\\' := toLower_eq_iff (by decide)
  simp [bne, Bool.beq_eq_decide_eq, same]

theorem lower_takeWhile (s : Text) :
    lower (s.takeWhile (· != '\\')) = (lower s).takeWhile (· != '\\') := by
  rw [lower, lower, List.takeWhile_map]
  simp only [Function.comp_def, noBackslash_toLower]

theorem lower_dropWhile (s : Text) :
    lower (s.dropWhile (· != '\\')) = (lower s).dropWhile (· != '\\') := by
  rw [lower, lower, List.dropWhile_map]
  simp only [Function.comp_def, noBackslash_toLower]

theorem lower_after?_backslash (s : Text) :
    (after? ['\\'] s).map lower = after? ['\\'] (lower s) := by
  cases s with
  | nil => rfl
  | cons c s =>
      have mark : '\\' = c.toLower ↔ '\\' = c := by
        rw [eq_comm, toLower_eq_iff (by decide), eq_comm]
      by_cases same : '\\' = c
      · simp [after?, ← same]
      · simp [after?, same, mark]

end Text

theorem isBuiltinType_of_lower_eq {name other : Text} (same : name.lower = other.lower) :
    isBuiltinType name = isBuiltinType other := by
  rw [isBuiltinType, isBuiltinType, same]

/-- A name that no rule before the imports decides: no reserved word and no built-in type, and
not marked to be looked up elsewhere. -/
structure IsOrdinary (name : Text) : Prop where
  visible : name ≠ []
  noOwn : ¬ (name.lower = "self".toList ∨ name.lower = "static".toList)
  noParent : name.lower ≠ "parent".toList
  noType : isBuiltinType name = false
  unmarked : Text.after? ['\\'] name = none
  noRelative : "namespace\\".toList.isPrefixOf name.lower = false

namespace Scope

variable {name other : Text}

/-- What an ordinary name stands for is told by the imports, or else by the namespace. -/
theorem resolve_ordinary (scope : Scope) (ordinary : IsOrdinary name) :
    scope.resolve name = .resolved (scope.resolvePlain name) := by
  unfold resolve
  rw [if_neg ordinary.visible, if_neg ordinary.noOwn, if_neg ordinary.noParent, ordinary.noType,
    if_neg Bool.false_ne_true, ordinary.unmarked]
  dsimp only
  rw [ordinary.noRelative, if_neg Bool.false_ne_true]

/-- The meaning of all other names is the same whatever is imported. -/
theorem resolve_imports (scope : Scope) (decided : ¬ IsOrdinary name)
    (imports : List (Text × Text)) :
    (Scope.mk scope.space imports scope.enclosing).resolve name = scope.resolve name := by
  by_cases visible : name = []
  · subst visible
    rfl
  unfold resolve
  rw [if_neg visible, if_neg visible]
  by_cases own : name.lower = "self".toList ∨ name.lower = "static".toList
  · rw [if_pos own, if_pos own]
  rw [if_neg own, if_neg own]
  by_cases parent : name.lower = "parent".toList
  · rw [if_pos parent, if_pos parent]
  rw [if_neg parent, if_neg parent]
  cases type : isBuiltinType name with
  | true => rfl
  | false =>
      rw [if_neg Bool.false_ne_true, if_neg Bool.false_ne_true]
      cases mark : Text.after? ['\\'] name with
      | some rest => rfl
      | none =>
          cases relative : "namespace\\".toList.isPrefixOf name.lower with
          | true => rfl
          | false => exact absurd ⟨visible, own, parent, type, mark, relative⟩ decided

end Scope

/-- Two outcomes of one kind, with names that differ at most in case. -/
def Resolution.Alike : Resolution → Resolution → Prop
  | .resolved name, .resolved other => name.lower = other.lower
  | .builtin name, .builtin other => name.lower = other.lower
  | .unresolved name, .unresolved other => name.lower = other.lower
  | _, _ => False

theorem IsOrdinary.of_lower_eq {name other : Text} (ordinary : IsOrdinary name)
    (same : name.lower = other.lower) : IsOrdinary other := by
  have unmarked := ordinary.unmarked
  rw [← Option.map_eq_none_iff (f := Text.lower), Text.lower_after?_backslash, same,
    ← Text.lower_after?_backslash, Option.map_eq_none_iff] at unmarked
  exact
    { visible := fun empty => ordinary.visible (by simpa [empty] using same)
      noOwn := same ▸ ordinary.noOwn
      noParent := same ▸ ordinary.noParent
      noType := isBuiltinType_of_lower_eq same ▸ ordinary.noType
      unmarked := unmarked
      noRelative := same ▸ ordinary.noRelative }

namespace Scope

variable {name other : Text}

theorem lower_qualify (scope : Scope) (same : name.lower = other.lower) :
    (scope.qualify name).lower = (scope.qualify other).lower := by
  unfold Scope.qualify
  cases scope.space with
  | none => exact same
  | some space => simp [same]

/-- The part before the first backslash is looked up without regard to case. -/
theorem imported?_of_lower_eq (scope : Scope) (same : name.lower = other.lower) :
    scope.imported? (name.takeWhile (· != '\\')) =
      scope.imported? (other.takeWhile (· != '\\')) := by
  rw [imported?, imported?, Text.lower_takeWhile, Text.lower_takeWhile, same]

theorem lower_resolvePlain (scope : Scope) (same : name.lower = other.lower) :
    (scope.resolvePlain name).lower = (scope.resolvePlain other).lower := by
  unfold resolvePlain
  dsimp only
  rw [imported?_of_lower_eq scope same]
  cases scope.imported? (other.takeWhile (· != '\\')) with
  | none => exact lower_qualify scope same
  | some target => simp [Text.lower_dropWhile, same]

/-- Names that differ in case alone mean the same up to case. -/
theorem resolve_alike (scope : Scope) (same : name.lower = other.lower) :
    (scope.resolve name).Alike (scope.resolve other) := by
  have empty : name = [] ↔ other = [] := by
    rw [← Text.lower_eq_nil, same, Text.lower_eq_nil]
  have marks := congrArg (Text.after? ['\\']) same
  rw [← Text.lower_after?_backslash, ← Text.lower_after?_backslash] at marks
  unfold resolve
  rw [← same, isBuiltinType_of_lower_eq same, if_congr empty rfl rfl]
  split
  case isTrue => rfl
  split
  case isTrue =>
    cases scope.enclosing with
    | some context => rfl
    | none => exact same
  split
  case isTrue =>
    cases scope.enclosing.bind ClassContext.parent with
    | some parent => rfl
    | none => exact same
  split
  case isTrue => exact same
  cases mark : Text.after? ['\\'] name with
  | some rest =>
      rw [mark] at marks
      obtain ⟨others, found, equal⟩ := Option.map_eq_some_iff.mp marks.symm
      rw [found]
      exact equal.symm
  | none =>
      rw [mark] at marks
      rw [Option.map_eq_none_iff.mp marks.symm]
      dsimp only
      split
      case isTrue =>
        refine lower_qualify scope ?_
        rw [Text.lower, Text.lower, List.map_drop, List.map_drop]
        exact congrArg _ same
      case isFalse => exact lower_resolvePlain scope same

/-- The class that one of the words for a class around stands for, if there is one. -/
def classMeant? (scope : Scope) (word : Text) : Option Text :=
  if word = "parent".toList then scope.enclosing.bind ClassContext.parent
  else scope.enclosing.map ClassContext.name

/-- The words for a class around, in any case, stand for that class. -/
theorem resolve_classWord (scope : Scope)
    (word : name.lower ∈ ["self".toList, "static".toList, "parent".toList]) :
    scope.resolve name = (scope.classMeant? name.lower).elim (.unresolved name) .resolved := by
  have visible : name ≠ [] := by
    rintro rfl
    exact absurd word (by decide)
  unfold resolve classMeant?
  rw [if_neg visible]
  by_cases parent : name.lower = "parent".toList
  · have noOwn : ¬ ("parent".toList = "self".toList ∨ "parent".toList = "static".toList) := by
      decide
    rw [parent, if_neg noOwn, if_pos rfl, if_pos rfl]
    cases scope.enclosing.bind ClassContext.parent <;> rfl
  · have own : name.lower = "self".toList ∨ name.lower = "static".toList := by
      rw [List.mem_cons, List.mem_cons, List.mem_singleton] at word
      exact word.imp_right fun others => others.resolve_right parent
    rw [if_pos own, if_neg parent]
    cases scope.enclosing <;> rfl

/-- Letter case plays no part in resolution. Two names that differ in case alone have meanings of
one kind that differ in case alone. Where their first part is imported, the import decides both
and gives both the same full name before the rest of each, or no import plays a part in either;
and where they are one of the words for a class around, they mean the same class. -/
theorem resolve_of_lower_eq (scope : Scope) (same : name.lower = other.lower) :
    (scope.resolve name).Alike (scope.resolve other) ∧
    (∀ target, scope.imported? (name.takeWhile (· != '\\')) = some target →
      (scope.resolve name = .resolved (target ++ name.dropWhile (· != '\\')) ∧
        scope.resolve other = .resolved (target ++ other.dropWhile (· != '\\'))) ∨
      ∀ imports,
        (Scope.mk scope.space imports scope.enclosing).resolve name = scope.resolve name ∧
        (Scope.mk scope.space imports scope.enclosing).resolve other = scope.resolve other) ∧
    (name.lower ∈ ["self".toList, "static".toList, "parent".toList] →
      ∀ found, scope.resolve name = .resolved found → scope.resolve other = .resolved found) := by
  refine ⟨resolve_alike scope same, ?_, ?_⟩
  · intro target imported
    by_cases ordinary : IsOrdinary name
    · have importedOther := imported?_of_lower_eq scope same ▸ imported
      left
      rw [resolve_ordinary scope ordinary, resolve_ordinary scope (ordinary.of_lower_eq same)]
      simp only [resolvePlain, imported, importedOther, and_self]
    · have decided : ¬ IsOrdinary other := fun ordinaryOther =>
        ordinary (ordinaryOther.of_lower_eq same.symm)
      exact .inr fun imports =>
        ⟨resolve_imports scope ordinary imports, resolve_imports scope decided imports⟩
  · intro word found resolved
    rw [resolve_classWord scope word] at resolved
    rw [resolve_classWord scope (same ▸ word), ← same]
    cases meant : scope.classMeant? name.lower with
    | none =>
        rw [meant] at resolved
        cases resolved
    | some own =>
        rw [meant] at resolved
        exact resolved

def inUmlauts : Scope :=
  ⟨some "App".toList, [("Ünit".toList, "Lib\\Maß".toList)], some ⟨"App\\Käfer".toList, none⟩⟩

/-- The letters outside of ASCII stay as they are. -/
theorem resolve_umlauts :
    Text.lower "ÜNIT\\GRößE".toList = Text.lower "Ünit\\größe".toList ∧
      inUmlauts.resolve "ÜNIT\\GRößE".toList = .resolved "Lib\\Maß\\GRößE".toList ∧
      inUmlauts.resolve "Ünit\\größe".toList = .resolved "Lib\\Maß\\größe".toList := by
  have same : Text.lower "ÜNIT\\GRößE".toList = Text.lower "Ünit\\größe".toList := by decide
  obtain ⟨-, imported, -⟩ := resolve_of_lower_eq inUmlauts same
  refine ⟨same, ?_⟩
  rcases imported "Lib\\Maß".toList (by decide) with told | apart
  · exact told
  · exact absurd (apart []).1 (by decide)

end Scope

end DocSig
