import DocSig.Outline.Basic
import Mathlib.Data.List.Count
import Mathlib.Data.List.Nodup

/-!
Outlines that grow node by node from the program alone.

A leaf is put below every node with the parent's number; since numbers are given once
(`Grown.numbers`), that is one node, and the outline holds each number below its size once.
-/

set_option autoImplicit false

namespace DocSig

/-- Where no key is given twice, the search for a key finds what has it. -/
theorem find?_of_nodup {α : Type} {key : α → Nat} {xs : List α} (once : (xs.map key).Nodup) {x : α}
    (found : x ∈ xs) : xs.find? (fun other => key other == key x) = some x := by
  cases search : xs.find? (fun other => key other == key x) with
  | none =>
      have absent := List.find?_eq_none.mp search x found
      simp at absent
  | some other =>
      have same : key other = key x := by simpa using List.find?_some search
      exact congrArg some
        (List.inj_on_of_nodup_map once (List.mem_of_find?_eq_some search) found same)

namespace Rose

variable {α β : Type}

mutual

/-- The two walks list the same subtrees. -/
theorem postorder_perm : ∀ tree : Rose α, tree.postorder.Perm tree.preorder
  | .branch label children => by
      rw [postorder, preorder]
      exact (List.perm_append_singleton _ _).trans ((postorderAll_perm children).cons _)

theorem postorderAll_perm : ∀ trees : List (Rose α), (postorderAll trees).Perm (preorderAll trees)
  | [] => .nil
  | tree :: trees => by
      rw [postorderAll, preorderAll]
      exact (postorder_perm tree).append (postorderAll_perm trees)

end

def labels (tree : Rose α) : List α := tree.preorder.map label

def labelsAll (trees : List (Rose α)) : List α := (preorderAll trees).map label

theorem mem_map_postorder {tree : Rose α} {label : α} :
    label ∈ tree.postorder.map Rose.label ↔ label ∈ tree.labels :=
  ((postorder_perm tree).map Rose.label).mem_iff

theorem labels_branch (root : α) (children : List (Rose α)) :
    labels (.branch root children) = root :: labelsAll children := by
  simp [labels, labelsAll, preorder, label]

@[simp] theorem labelsAll_nil : labelsAll ([] : List (Rose α)) = [] := rfl

theorem labelsAll_cons (tree : Rose α) (trees : List (Rose α)) :
    labelsAll (tree :: trees) = labels tree ++ labelsAll trees := by
  simp [labels, labelsAll, preorderAll]

theorem labelsAll_append (trees others : List (Rose α)) :
    labelsAll (trees ++ others) = labelsAll trees ++ labelsAll others := by
  simp [labelsAll, preorderAll_append]

end Rose

namespace Outline

open Rose

/-- An outline that some pushes make, each below a node that is there. -/
inductive Grown : Outline → Prop
  | empty : Grown Outline.empty
  | push {outline : Outline} (parent : Nat) (node : Node) :
      Grown outline → parent < outline.size → Grown (outline.push parent node)

mutual

/-- A leaf comes in once for each node with the parent's number. -/
theorem labels_graft (parent : Nat) (leaf : Entry) : ∀ tree : Rose Entry,
    (labels (graft parent leaf tree)).Perm
      (List.replicate ((labels tree).countP fun entry => entry.id = parent) leaf ++ labels tree)
  | .branch entry children => by
      have below := labelsAll_graftAll parent leaf children
      have moved := (below.cons entry).trans List.perm_middle.symm
      rw [graft, labels_branch, labels_branch, labelsAll_append, List.countP_cons]
      by_cases here : entry.id = parent
      · have added : labelsAll [Rose.branch leaf []] = [leaf] := rfl
        simp only [here, ↓reduceIte, decide_true, added, List.replicate_succ, List.cons_append]
        have front : (entry :: (labelsAll (graftAll parent leaf children) ++ [leaf])).Perm
            (leaf :: entry :: labelsAll (graftAll parent leaf children)) :=
          ((List.perm_append_singleton _ _).cons entry).trans (.swap _ _ _)
        exact front.trans (moved.cons leaf)
      · simp only [here, ↓reduceIte, decide_false, labelsAll_nil, List.append_nil]
        exact moved

theorem labelsAll_graftAll (parent : Nat) (leaf : Entry) : ∀ trees : List (Rose Entry),
    (labelsAll (graftAll parent leaf trees)).Perm
      (List.replicate ((labelsAll trees).countP fun entry => entry.id = parent) leaf ++
        labelsAll trees)
  | [] => .nil
  | tree :: trees => by
      rw [graftAll, labelsAll_cons, labelsAll_cons, List.countP_append, List.replicate_add]
      refine ((labels_graft parent leaf tree).append
        (labelsAll_graftAll parent leaf trees)).trans ?_
      rw [List.append_assoc, List.append_assoc]
      refine List.Perm.append_left _ ?_
      rw [← List.append_assoc, ← List.append_assoc]
      exact List.perm_append_comm.append_right _

end

def numbers (outline : Outline) : List Nat := (labels outline.root).map Entry.id

/-- Every number below the size is that of one node. -/
theorem Grown.numbers_perm {outline : Outline} (grown : Grown outline) :
    outline.numbers.Perm (List.range outline.size) := by
  induction grown with
  | empty => exact List.Perm.refl _
  | @push outline parent node _ inside ih =>
      -- the parent is one node, so one leaf comes in
      have once : (labels outline.root).countP (fun entry => entry.id = parent) = 1 := by
        have counted : outline.numbers.count parent = 1 := by
          rw [ih.count_eq]
          exact List.count_eq_one_of_mem List.nodup_range (List.mem_range.mpr inside)
        rw [← counted, numbers, List.count, List.countP_map]
        rfl
      have grafted := labels_graft parent ⟨node, outline.size⟩ outline.root
      rw [once] at grafted
      have numbered : (outline.push parent node).numbers.Perm (outline.size :: outline.numbers) :=
        grafted.map Entry.id
      refine numbered.trans ((ih.cons _).trans ?_)
      change (outline.size :: List.range outline.size).Perm (List.range (outline.size + 1))
      rw [List.range_succ]
      exact (List.perm_append_singleton _ _).symm

theorem Grown.numbers_nodup {outline : Outline} (grown : Grown outline) : outline.numbers.Nodup :=
  grown.numbers_perm.nodup_iff.mpr List.nodup_range

theorem Grown.id_lt {outline : Outline} (grown : Grown outline) {entry : Entry}
    (found : entry ∈ labels outline.root) : entry.id < outline.size :=
  List.mem_range.mp (grown.numbers_perm.mem_iff.mp (List.mem_map_of_mem found))

/-- The number of a node finds the subtree at it. -/
theorem Grown.find?_of_mem {outline : Outline} (grown : Grown outline) {tree : Rose Entry}
    (found : tree ∈ outline.root.preorder) : outline.find? tree.label.id = some tree := by
  have once : (outline.root.preorder.map fun tree => tree.label.id).Nodup := by
    have nodup := grown.numbers_nodup
    rwa [numbers, labels, List.map_map] at nodup
  exact find?_of_nodup once found

theorem Grown.count {outline : Outline} (grown : Grown outline) :
    outline.root.preorder.length = outline.size := by
  have counted := grown.numbers_perm.length_eq
  simpa [numbers, labels] using counted

end Outline

end DocSig
