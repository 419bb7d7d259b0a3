import DocSig.Outline.Scope

/-!
When a name stands for a class.

The built-in types never do, and `self`, `static` and `parent` do not where there is no class that
they could stand for. All other names do (`exists_resolve_resolved`). Apart from the empty name,
those three words are all that cannot be told (`resolve_eq_unresolved_iff`).
-/

set_option autoImplicit false

namespace DocSig

theorem resolve_builtin (scope : Scope) {name : Text} (builtin : isBuiltinType name = true) :
    scope.resolve name = .builtin name := by
  have apart : ∀ word : Text, isBuiltinType word = false → word.lower = word →
      name.lower ≠ word := by
    intro word other plain same
    rw [isBuiltinType, same] at builtin
    rw [isBuiltinType, plain, builtin] at other
    cases other
  have visible : name ≠ [] := by
    rintro rfl
    exact absurd builtin (by decide)
  have noSelf := apart "self".toList (by decide) (by decide)
  have noStatic := apart "static".toList (by decide) (by decide)
  have noParent := apart "parent".toList (by decide) (by decide)
  unfold Scope.resolve
  rw [if_neg visible, if_neg (not_or.mpr ⟨noSelf, noStatic⟩), if_neg noParent, if_pos builtin]

/-- A name that means nothing here: one of the words for the class around, or for the class it
extends, where there is none. -/
def IsUnresolvable (scope : Scope) (name : Text) : Prop :=
  (name.lower = "self".toList ∨ name.lower = "static".toList) ∧ scope.enclosing = none ∨
    name.lower = "parent".toList ∧ scope.enclosing.bind ClassContext.parent = none

theorem resolve_unresolvable {scope : Scope} {name : Text} (unknown : IsUnresolvable scope name) :
    scope.resolve name = .unresolved name := by
  have visible : name ≠ [] := by
    rintro rfl
    have blank : ∀ word : Text, word ≠ [] → Text.lower [] ≠ word :=
      fun word visible same => visible same.symm
    rcases unknown with ⟨same | same, -⟩ | ⟨same, -⟩
    · exact blank _ (by decide) same
    · exact blank _ (by decide) same
    · exact blank _ (by decide) same
  unfold Scope.resolve
  rw [if_neg visible]
  rcases unknown with ⟨own, outside⟩ | ⟨parent, without⟩
  · rw [if_pos own, outside]
  · have other : ¬ (name.lower = "self".toList ∨ name.lower = "static".toList) := by
      rw [parent]
      decide
    rw [if_neg other, if_pos parent, without]

/-- Every other name stands for a class. -/
theorem exists_resolve_resolved {scope : Scope} {name : Text} (visible : name ≠ [])
    (builtin : isBuiltinType name = false) (known : ¬ IsUnresolvable scope name) :
    ∃ found, scope.resolve name = .resolved found := by
  unfold Scope.resolve
  rw [if_neg visible]
  by_cases own : name.lower = "self".toList ∨ name.lower = "static".toList
  · rw [if_pos own]
    cases around : scope.enclosing with
    | none => exact absurd (Or.inl ⟨own, around⟩) known
    | some context => exact ⟨context.name, rfl⟩
  · rw [if_neg own]
    by_cases parent : name.lower = "parent".toList
    · rw [if_pos parent]
      cases extended : scope.enclosing.bind ClassContext.parent with
      | none => exact absurd (Or.inr ⟨parent, extended⟩) known
      | some name => exact ⟨name, rfl⟩
    · rw [if_neg parent, builtin, if_neg Bool.false_ne_true]
      cases Text.after? ['\\'] name with
      | some rest => exact ⟨rest, rfl⟩
      | none =>
          dsimp only
          split
          · exact ⟨_, rfl⟩
          · exact ⟨_, rfl⟩

/-- What cannot be told is kept as it is written. -/
theorem resolve_eq_unresolved_iff {scope : Scope} {name written : Text} :
    scope.resolve name = .unresolved written ↔
      written = name ∧ (name = [] ∨ IsUnresolvable scope name) := by
  constructor
  · intro unresolved
    by_cases empty : name = []
    · subst empty
      have same : Resolution.unresolved [] = .unresolved written := unresolved
      exact ⟨(Resolution.unresolved.inj same).symm, Or.inl rfl⟩
    · by_cases unknown : IsUnresolvable scope name
      · rw [resolve_unresolvable unknown] at unresolved
        exact ⟨(Resolution.unresolved.inj unresolved).symm, Or.inr unknown⟩
      · exfalso
        cases builtin : isBuiltinType name with
        | true =>
            rw [resolve_builtin scope builtin] at unresolved
            cases unresolved
        | false =>
            obtain ⟨found, resolved⟩ := exists_resolve_resolved empty builtin unknown
            rw [resolved] at unresolved
            cases unresolved
  · rintro ⟨rfl, rfl | unknown⟩
    · rfl
    · exact resolve_unresolvable unknown

end DocSig
