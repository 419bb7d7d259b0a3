import DocSig.Text.Basic

/-!
Finite sets of texts, kept as strictly ascending lists.

Because the order is strict, two sets with the same members are the same value
(`TypeSet.ext_mem`), and no set depends on the order or the repetitions of the list that it was
made from (`TypeSet.mem_ofList`).
-/

set_option autoImplicit false

namespace DocSig

structure TypeSet where
  texts : List Text
  ascending : texts.Pairwise (· < ·) := by simp
deriving DecidableEq

namespace TypeSet

def insertText (s : Text) : List Text → List Text
  | [] => [s]
  | t :: ts => if s < t then s :: t :: ts else if t < s then t :: insertText s ts else t :: ts

theorem mem_insertText {s t : Text} {ts : List Text} :
    t ∈ insertText s ts ↔ t = s ∨ t ∈ ts := by
  induction ts with
  | nil => simp [insertText]
  | cons u us ih =>
    by_cases below : s < u
    · simp [insertText, below]
    · by_cases above : u < s
      · simp [insertText, below, above, ih, or_left_comm]
      · have same : s = u := List.le_antisymm (List.not_lt.mp above) (List.not_lt.mp below)
        have one : insertText s (u :: us) = u :: us := by
          simp only [insertText, below, above, ↓reduceIte]
        rw [one, same, List.mem_cons, ← or_assoc, or_self]

theorem ascending_insertText {s : Text} {ts : List Text} (h : ts.Pairwise (· < ·)) :
    (insertText s ts).Pairwise (· < ·) := by
  induction ts with
  | nil => simp [insertText]
  | cons u us ih =>
    obtain ⟨first, more⟩ := List.pairwise_cons.mp h
    by_cases below : s < u
    · simp only [insertText, below, ↓reduceIte, List.pairwise_cons]
      refine ⟨?_, first, more⟩
      intro t member
      rcases List.mem_cons.mp member with rfl | member
      · exact below
      · exact List.lt_trans below (first t member)
    · by_cases above : u < s
      · simp only [insertText, below, above, ↓reduceIte, List.pairwise_cons]
        refine ⟨?_, ih more⟩
        intro t member
        rcases mem_insertText.mp member with rfl | member
        · exact above
        · exact first t member
      · simp only [insertText, below, above, ↓reduceIte]
        exact h

instance : Membership Text TypeSet := ⟨fun set s => s ∈ set.texts⟩

def empty : TypeSet := ⟨[], List.Pairwise.nil⟩

def insert (s : Text) (set : TypeSet) : TypeSet :=
  ⟨insertText s set.texts, ascending_insertText set.ascending⟩

def ofList : List Text → TypeSet
  | [] => empty
  | s :: ts => insert s (ofList ts)

def map (f : Text → Text) (set : TypeSet) : TypeSet := ofList (set.texts.map f)

theorem mem_def {s : Text} {set : TypeSet} : s ∈ set ↔ s ∈ set.texts := Iff.rfl

@[simp] theorem not_mem_empty {s : Text} : s ∉ empty := List.not_mem_nil

@[simp] theorem mem_insert {s t : Text} {set : TypeSet} : t ∈ insert s set ↔ t = s ∨ t ∈ set :=
  mem_insertText

@[simp] theorem mem_ofList {s : Text} {ts : List Text} : s ∈ ofList ts ↔ s ∈ ts := by
  induction ts with
  | nil => simp [ofList]
  | cons t ts ih => simp [ofList, ih]

@[simp] theorem mem_map {s : Text} {f : Text → Text} {set : TypeSet} :
    s ∈ map f set ↔ ∃ t ∈ set, f t = s := by
  simp only [map, mem_ofList, List.mem_map]
  exact Iff.rfl

/-- Sets with the same members are equal. -/
theorem ext_mem {a b : TypeSet} (h : ∀ s, s ∈ a ↔ s ∈ b) : a = b := by
  obtain ⟨as, ascendingA⟩ := a
  obtain ⟨bs, ascendingB⟩ := b
  have h : ∀ s, s ∈ as ↔ s ∈ bs := h
  suffices same : as = bs by subst same; rfl
  induction as generalizing bs with
  | nil =>
    cases bs with
    | nil => rfl
    | cons b bs => exact absurd ((h b).mpr List.mem_cons_self) List.not_mem_nil
  | cons a as ih =>
    cases bs with
    | nil => exact absurd ((h a).mp List.mem_cons_self) List.not_mem_nil
    | cons b bs =>
      obtain ⟨firstA, moreA⟩ := List.pairwise_cons.mp ascendingA
      obtain ⟨firstB, moreB⟩ := List.pairwise_cons.mp ascendingB
      have heads : a = b := by
        rcases List.mem_cons.mp ((h a).mp List.mem_cons_self) with same | inB
        · exact same
        · rcases List.mem_cons.mp ((h b).mpr List.mem_cons_self) with same | inA
          · exact same.symm
          · exact absurd (List.lt_trans (firstA b inA) (firstB a inB)) (List.lt_irrefl a)
      subst heads
      have tails : ∀ s, s ∈ as ↔ s ∈ bs := by
        intro s
        constructor
        · intro member
          rcases List.mem_cons.mp ((h s).mp (List.mem_cons_of_mem a member)) with same | inB
          · subst same
            exact absurd (firstA s member) (List.lt_irrefl s)
          · exact inB
        · intro member
          rcases List.mem_cons.mp ((h s).mpr (List.mem_cons_of_mem a member)) with same | inA
          · subst same
            exact absurd (firstB s member) (List.lt_irrefl s)
          · exact inA
      rw [ih moreA bs moreB tails tails]

end TypeSet

end DocSig
