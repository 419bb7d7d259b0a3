import DocSig.DocType.Basic

/-!
Equality of type expressions can be decided, so what a text is read as can be computed.

`DocType.same` compares two trees constructor by constructor, through the lists of types that stand
within them.
-/

set_option autoImplicit false

namespace DocSig.DocType

mutual

def same : DocType → DocType → Bool
  | .name s, .name t => s == t
  | .literal s, .literal t => s == t
  | .nullable s, .nullable t => same s t
  | .array s, .array t => same s t
  | .generic s ss, .generic t ts => s == t && sameAll ss ts
  | .shape s ss, .shape t ts => s == t && sameEntries ss ts
  | .callable s ss p, .callable t ts q => s == t && sameAll ss ts && sameResult p q
  | .conditional s m s₁ s₂ s₃, .conditional t n t₁ t₂ t₃ =>
    s == t && m == n && same s₁ t₁ && same s₂ t₂ && same s₃ t₃
  | .union ss, .union ts => sameAll ss ts
  | .intersection ss, .intersection ts => sameAll ss ts
  | _, _ => false

def sameAll : List DocType → List DocType → Bool
  | [], [] => true
  | s :: ss, t :: ts => same s t && sameAll ss ts
  | _, _ => false

def sameEntries : List (ShapeEntry DocType) → List (ShapeEntry DocType) → Bool
  | [], [] => true
  | ⟨j, m, s⟩ :: ss, ⟨k, n, t⟩ :: ts => j == k && m == n && same s t && sameEntries ss ts
  | _, _ => false

def sameResult : Option DocType → Option DocType → Bool
  | none, none => true
  | some s, some t => same s t
  | _, _ => false

end

-- Along the first tree; the second one has the same constructor or the comparison fails.
mutual

theorem same_iff : ∀ {s t : DocType}, same s t = true ↔ s = t
  | .name _, t => by cases t <;> simp [same]
  | .literal _, t => by cases t <;> simp [same]
  | .nullable _, t => by cases t <;> simp [same, same_iff]
  | .array _, t => by cases t <;> simp [same, same_iff]
  | .generic _ _, t => by cases t <;> simp [same, sameAll_iff]
  | .shape _ _, t => by cases t <;> simp [same, sameEntries_iff]
  | .callable _ _ _, t => by cases t <;> simp [same, sameAll_iff, sameResult_iff, and_assoc]
  | .conditional _ _ _ _ _, t => by cases t <;> simp [same, same_iff, and_assoc]
  | .union _, t => by cases t <;> simp [same, sameAll_iff]
  | .intersection _, t => by cases t <;> simp [same, sameAll_iff]
termination_by structural s => s

theorem sameAll_iff : ∀ {ss ts : List DocType}, sameAll ss ts = true ↔ ss = ts
  | [], ts => by cases ts <;> simp [sameAll]
  | _ :: _, ts => by cases ts <;> simp [sameAll, same_iff, sameAll_iff]
termination_by structural ss => ss

theorem sameEntries_iff :
    ∀ {ss ts : List (ShapeEntry DocType)}, sameEntries ss ts = true ↔ ss = ts
  | [], ts => by cases ts <;> simp [sameEntries]
  | ⟨_, _, _⟩ :: _, [] => by simp [sameEntries]
  | ⟨_, _, _⟩ :: _, ⟨_, _, _⟩ :: _ => by simp [sameEntries, same_iff, sameEntries_iff, and_assoc]
termination_by structural ss => ss

theorem sameResult_iff : ∀ {s t : Option DocType}, sameResult s t = true ↔ s = t
  | none, t => by cases t <;> simp [sameResult]
  | some _, t => by cases t <;> simp [sameResult, same_iff]
termination_by structural s => s

end

instance : DecidableEq DocType := fun s t => decidable_of_iff (same s t = true) same_iff

end DocSig.DocType
