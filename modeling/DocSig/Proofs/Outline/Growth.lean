import DocSig.Proofs.Outline.Linking
import DocSig.Proofs.Outline.Steps

/-!
What a table says of a node does not change when the outline grows on.

Without what it says of the new leaf, the walk over an outline with one leaf more gives what it
gave before (`walk_graft`), as long as the leaf imports nothing; likewise the order of the nodes.
What holds of one push holds of any number of them (`GrownFrom.find?_eq` and its like).
-/

set_option autoImplicit false

namespace DocSig

open Lexical Outline

namespace NameTable

def without (id : Nat) (namings : List Naming) : List Naming :=
  namings.filter fun naming => naming.id != id

theorem without_append (id : Nat) (namings others : List Naming) :
    without id (namings ++ others) = without id namings ++ without id others :=
  List.filter_append ..

theorem without_namingAt (scope : Scope) {entry : Entry} {id : Nat} (other : entry.id ≠ id) :
    without id (namingAt scope entry).toList = (namingAt scope entry).toList := by
  cases noted : namingAt scope entry with
  | none => rfl
  | some naming => simp [without, id_of_namingAt noted, other]

/-- A leaf that imports nothing leaves no trace but what is noted for itself. -/
theorem walk_leaf {leaf : Entry} (nothing : leaf.kind.importList = []) (scope : Scope) :
    (walk scope (.branch leaf [])).1 = scope ∧
      without leaf.id (walk scope (.branch leaf [])).2 = [] := by
  refine ⟨walk_scope _ scope ?_, ?_⟩
  · simpa [Rose.labels_branch] using nothing
  · have own : without leaf.id (namingAt scope leaf).toList = [] := by
      cases noted : namingAt scope leaf with
      | none => rfl
      | some naming => simp [without, id_of_namingAt noted]
    rw [walk_branch]
    split
    · exact own
    · simpa [walkAll] using own

mutual

/-- The walk over a tree with one leaf more: the scope behind it is the same, and so is what is
noted for the nodes that were there. -/
theorem walk_graft (parent : Nat) {leaf : Entry} (nothing : leaf.kind.importList = []) :
    ∀ (tree : Rose Entry) (scope : Scope), (∀ entry ∈ tree.labels, entry.id ≠ leaf.id) →
      (walk scope (graft parent leaf tree)).1 = (walk scope tree).1 ∧
        without leaf.id (walk scope (graft parent leaf tree)).2 = (walk scope tree).2
  | .branch entry children, scope, fresh => by
      rw [Rose.labels_branch, List.forall_mem_cons] at fresh
      obtain ⟨other, further⟩ := fresh
      obtain ⟨left, noted⟩ := walkAll_graftAll parent nothing children (entered scope entry) further
      have grafted : ∀ added, added = [] ∨ added = [Rose.branch leaf []] →
          (walkAll (entered scope entry) (graftAll parent leaf children ++ added)).1 =
            (walkAll (entered scope entry) children).1 ∧
          without leaf.id
              (walkAll (entered scope entry) (graftAll parent leaf children ++ added)).2 =
            (walkAll (entered scope entry) children).2 := by
        rintro added (rfl | rfl)
        · rw [List.append_nil]
          exact ⟨left, noted⟩
        · obtain ⟨same, own⟩ := walk_leaf nothing (walkAll (entered scope entry) children).1
          rw [walkAll_append, without_append, left, noted]
          simp [walkAll, same, own]
      obtain ⟨scopes, namings⟩ := grafted (if entry.id = parent then [.branch leaf []] else [])
        (by split <;> simp)
      have here := without_namingAt scope other
      rw [graft, walk_branch, walk_branch]
      split
      · exact ⟨rfl, here⟩
      · refine ⟨?_, ?_⟩
        · dsimp only
          rw [scopes]
        · dsimp only
          rw [without_append, here, namings]

theorem walkAll_graftAll (parent : Nat) {leaf : Entry} (nothing : leaf.kind.importList = []) :
    ∀ (trees : List (Rose Entry)) (scope : Scope),
      (∀ entry ∈ Rose.labelsAll trees, entry.id ≠ leaf.id) →
      (walkAll scope (graftAll parent leaf trees)).1 = (walkAll scope trees).1 ∧
        without leaf.id (walkAll scope (graftAll parent leaf trees)).2 = (walkAll scope trees).2
  | [], _, _ => ⟨rfl, rfl⟩
  | tree :: trees, scope, fresh => by
      rw [Rose.labelsAll_cons, List.forall_mem_append] at fresh
      obtain ⟨left, noted⟩ := walk_graft parent nothing tree scope fresh.1
      obtain ⟨behind, more⟩ := walkAll_graftAll parent nothing trees (walk scope tree).1 fresh.2
      rw [graftAll, walkAll, walkAll]
      dsimp only
      rw [left, without_append, noted, behind, more]
      exact ⟨rfl, rfl⟩

end

end NameTable

namespace Rose

theorem postorderAll_append {α : Type} (trees others : List (Rose α)) :
    postorderAll (trees ++ others) = postorderAll trees ++ postorderAll others := by
  induction trees with
  | nil => rfl
  | cons tree trees ih => simp [postorderAll, ih]

end Rose

namespace Outline

mutual

/-- The nodes that were there come in the order in which they came. -/
theorem postorder_graft (parent : Nat) (leaf : Entry) : ∀ tree : Rose Entry,
    (∀ entry ∈ tree.labels, entry.id ≠ leaf.id) →
    ((graft parent leaf tree).postorder.map Rose.label).filter (fun entry => entry.id != leaf.id) =
      tree.postorder.map Rose.label
  | .branch entry children, fresh => by
      rw [Rose.labels_branch, List.forall_mem_cons] at fresh
      have below := postorderAll_graftAll parent leaf children fresh.2
      rw [graft, Rose.postorder, Rose.postorder, Rose.postorderAll_append]
      simp only [List.map_append, List.filter_append, below]
      split
      · simp [Rose.postorderAll, Rose.postorder, Rose.label, fresh.1]
      · simp [Rose.postorderAll, Rose.label, fresh.1]

theorem postorderAll_graftAll (parent : Nat) (leaf : Entry) : ∀ trees : List (Rose Entry),
    (∀ entry ∈ Rose.labelsAll trees, entry.id ≠ leaf.id) →
    ((Rose.postorderAll (graftAll parent leaf trees)).map Rose.label).filter
        (fun entry => entry.id != leaf.id) =
      (Rose.postorderAll trees).map Rose.label
  | [], _ => rfl
  | tree :: trees, fresh => by
      rw [Rose.labelsAll_cons, List.forall_mem_append] at fresh
      rw [graftAll, Rose.postorderAll, Rose.postorderAll, List.map_append, List.map_append,
        List.filter_append, postorder_graft parent leaf tree fresh.1,
        postorderAll_graftAll parent leaf trees fresh.2]

end

/-- An outline that some pushes make of another, none of which imports anything. -/
inductive GrownFrom (old : Outline) : Outline → Prop
  | refl : GrownFrom old old
  | push {outline : Outline} (parent : Nat) (node : Node) :
      GrownFrom old outline → parent < outline.size → node.kind.importList = [] →
      GrownFrom old (outline.push parent node)

variable {old new outline : Outline}

theorem GrownFrom.grown (further : old.GrownFrom new) (grown : old.Grown) : new.Grown := by
  induction further with
  | refl => exact grown
  | push parent node _ inside _ ih => exact .push parent node ih inside

theorem GrownFrom.size_le (further : old.GrownFrom new) : old.size ≤ new.size := by
  induction further with
  | refl => exact Nat.le_refl _
  | push parent node _ _ _ ih => exact Nat.le_succ_of_le ih

theorem Grown.fresh (grown : outline.Grown) :
    ∀ entry ∈ outline.root.labels, entry.id ≠ outline.size :=
  fun _ found => Nat.ne_of_lt (grown.id_lt found)

theorem mem_labels_push {entry : Entry} (found : entry ∈ outline.root.labels) (parent : Nat)
    (node : Node) : entry ∈ (outline.push parent node).root.labels :=
  (labels_graft parent ⟨node, outline.size⟩ outline.root).mem_iff.mpr
    (List.mem_append_right _ found)

/-- The table has for a node what it had before a push that imports nothing. -/
theorem find?_push (grown : outline.Grown) {node : Node} (nothing : node.kind.importList = [])
    (parent : Nat) {id : Nat} (inside : id < outline.size) :
    (NameTable.ofOutline (outline.push parent node)).find? id =
      (NameTable.ofOutline outline).find? id := by
  let leaf : Entry := ⟨node, outline.size⟩
  have quiet : leaf.kind.importList = [] := nothing
  have same : NameTable.without outline.size
      (NameTable.ofOutline (outline.push parent node)).namings =
        (NameTable.ofOutline outline).namings :=
    (NameTable.walk_graft parent quiet outline.root Scope.outermost grown.fresh).2
  unfold NameTable.find?
  rw [← same, NameTable.without, List.find?_filter]
  refine congrArg (fun test => List.find? test _) (funext fun naming => ?_)
  by_cases here : naming.id = id
  · simp [here, Nat.ne_of_lt inside]
  · simp [here]

/-- The table has for a node of the older outline what the older table has. -/
theorem GrownFrom.find?_eq (further : old.GrownFrom new) (grown : old.Grown) {id : Nat}
    (inside : id < old.size) :
    (NameTable.ofOutline new).find? id = (NameTable.ofOutline old).find? id := by
  induction further with
  | refl => rfl
  | push parent node further _ nothing ih =>
      rw [find?_push (further.grown grown) nothing parent
        (Nat.lt_of_lt_of_le inside further.size_le), ih]

theorem GrownFrom.parent?_eq (further : old.GrownFrom new) (grown : old.Grown) {id : Nat}
    (inside : id < old.size) :
    (ParentTable.ofOutline new).parent? id = (ParentTable.ofOutline old).parent? id := by
  induction further with
  | refl => rfl
  | push parent node further below _ ih =>
      rw [ParentTable.parent?_push (further.grown grown) below node
        (Nat.lt_of_lt_of_le inside further.size_le), ih]

theorem GrownFrom.mem_labels (further : old.GrownFrom new) {entry : Entry}
    (found : entry ∈ old.root.labels) : entry ∈ new.root.labels := by
  induction further with
  | refl => exact found
  | push parent node _ _ _ ih => exact mem_labels_push ih parent node

/-- A number of the older outline finds the same node in the new one, if not the same subtree. -/
theorem GrownFrom.label_eq (further : old.GrownFrom new) (grown : old.Grown) {id : Nat}
    (inside : id < old.size) :
    (new.find? id).map Rose.label = (old.find? id).map Rose.label := by
  obtain ⟨tree, here, rfl⟩ := grown.exists_subtree inside
  obtain ⟨other, there, same⟩ := List.mem_map.mp (further.mem_labels (List.mem_map_of_mem here))
  have older := grown.find?_of_mem here
  have newer := (further.grown grown).find?_of_mem there
  rw [same] at newer
  rw [older, newer, Option.map_some, Option.map_some, same]

theorem Grown.id_lt_of_mem_postorder (grown : outline.Grown) {entry : Entry}
    (found : entry ∈ outline.root.postorder.map Rose.label) : entry.id < outline.size :=
  grown.id_lt (Rose.mem_map_postorder.mp found)

/-- The nodes of the older outline stand in the order in which they stood. -/
theorem GrownFrom.postorder_eq (further : old.GrownFrom new) (grown : old.Grown) :
    (new.root.postorder.map Rose.label).filter (fun entry => entry.id < old.size) =
      old.root.postorder.map Rose.label := by
  induction further with
  | refl =>
      refine List.filter_eq_self.mpr fun entry found => ?_
      exact decide_eq_true (grown.id_lt_of_mem_postorder found)
  | @push outline parent node further _ _ ih =>
      have same : ((outline.push parent node).root.postorder.map Rose.label).filter
          (fun entry => entry.id != outline.size) = outline.root.postorder.map Rose.label :=
        postorder_graft parent ⟨node, outline.size⟩ outline.root (further.grown grown).fresh
      rw [← ih, ← same, List.filter_filter]
      refine List.filter_congr fun entry _ => ?_
      -- what is older than the first outline is older than the leaf that is pushed
      by_cases older : entry.id < old.size
      · have other : entry.id ≠ outline.size :=
          Nat.ne_of_lt (Nat.lt_of_lt_of_le older further.size_le)
        simp [older, other]
      · simp [older]

end Outline

end DocSig
