import DocSig.Outline.Parents
import DocSig.Proofs.Outline.Children

/-!
The pass that links children to their parents ends with one link for each child of each node.

What has been linked, together with the links that the nodes on the stack still give (`linksOf`),
stays the same from step to step but for its order (`perm_of_step`). In a grown outline no number
is that of two children, so the table's parent of a node is the node that has it as a child
(`parent?_eq_some_iff`).
-/

set_option autoImplicit false

namespace DocSig

namespace Rose

variable {α : Type}

mutual

/-- Every node below the root is a child once. -/
theorem children_perm : ∀ tree : Rose α,
    (tree.preorder.flatMap fun sub => sub.children.map label).Perm (labelsAll tree.children)
  | .branch root children => by
      rw [preorder, List.flatMap_cons]
      exact childrenAll_perm children

theorem childrenAll_perm : ∀ trees : List (Rose α),
    (trees.map label ++ (preorderAll trees).flatMap fun sub => sub.children.map label).Perm
      (labelsAll trees)
  | [] => .nil
  | .branch root children :: trees => by
      have first := children_perm (.branch root children)
      have later := childrenAll_perm trees
      rw [preorderAll, List.flatMap_append, labelsAll_cons, labels_branch, List.map_cons, label,
        List.cons_append, List.cons_append]
      refine List.Perm.cons root ?_
      rw [← List.append_assoc]
      refine (List.perm_append_comm.append_right _).trans ?_
      rw [List.append_assoc]
      exact first.append later

end

end Rose

namespace Linking

/-- A link for each child of each node of some trees. -/
def linksOf (trees : List (Rose Entry)) : List (Nat × Nat) :=
  (Rose.preorderAll trees).flatMap fun tree =>
    tree.children.map fun child => (child.label.id, tree.label.id)

theorem linksOf_append (trees others : List (Rose Entry)) :
    linksOf (trees ++ others) = linksOf trees ++ linksOf others := by
  rw [linksOf, Rose.preorderAll_append, List.flatMap_append]
  rfl

theorem linksOf_cons (entry : Entry) (children trees : List (Rose Entry)) :
    linksOf (.branch entry children :: trees) =
      children.map (fun child => (child.label.id, entry.id)) ++
        (linksOf children ++ linksOf trees) := by
  rw [linksOf, Rose.preorderAll, Rose.preorder, List.cons_append, List.flatMap_cons,
    List.flatMap_append]
  rfl

/-- One step: what is linked in the end stays the same. -/
theorem perm_of_step {linking next : Linking} (stepped : linking.step = some next) :
    (next.table.links ++ linksOf next.stack).Perm
      (linking.table.links ++ linksOf linking.stack) := by
  obtain ⟨stack, table⟩ := linking
  match stack with
  | [] => cases stepped
  | .branch entry children :: stack =>
      rw [step_branch] at stepped
      cases stepped
      dsimp only
      rw [linksOf_append, linksOf_cons, List.append_assoc]
      exact List.perm_append_comm_assoc _ _ _

theorem stack_of_stopped {linking : Linking} (stopped : linking.step = none) :
    linking.stack = [] := by
  obtain ⟨stack, table⟩ := linking
  match stack with
  | [] => rfl
  | _ :: _ => cases stopped

/-- A whole pass: every child of a node that the stack stands for is linked, and nothing else. -/
theorem run_perm (linking : Linking) :
    linking.run.stack = [] ∧
      linking.run.table.links.Perm (linking.table.links ++ linksOf linking.stack) := by
  -- along the run; what is linked and what is to be linked together stay from step to step
  fun_induction run linking with
  | case1 linking stopped =>
      have empty := stack_of_stopped stopped
      refine ⟨empty, ?_⟩
      rw [empty]
      exact List.Perm.of_eq (List.append_nil _).symm
  | case2 linking next stepped ih => exact ⟨ih.1, ih.2.trans (perm_of_step stepped)⟩

def steps : Nat → Linking → Option Linking
  | 0, linking => some linking
  | count + 1, linking => linking.step.bind (steps count)

/-- A pass ends after the steps that were left of it. -/
theorem steps_work (linking : Linking) : steps linking.work linking = some linking.run := by
  fun_induction run linking with
  | case1 linking stopped =>
      have none_left : linking.work = 0 := by
        rw [work, stack_of_stopped stopped]
        rfl
      rw [none_left]
      rfl
  | case2 linking next stepped ih =>
      rw [work_of_step stepped, steps, stepped, Option.bind_some, ih]

end Linking

namespace ParentTable

open Outline

variable {outline : Outline} {child parent : Nat}

/-- The pass takes a step for each node. -/
theorem steps_size (grown : outline.Grown) :
    Linking.steps outline.size (Linking.start outline) = some ⟨[], ofOutline outline⟩ := by
  have nodes : (Linking.start outline).work = outline.size := by
    simp [Linking.work, Linking.start, Rose.preorderAll, grown.count]
  have ended := Linking.steps_work (Linking.start outline)
  rw [nodes] at ended
  rw [ended, ← (Linking.run_perm (Linking.start outline)).1]
  rfl

theorem links_perm (outline : Outline) :
    (ofOutline outline).links.Perm (Linking.linksOf [outline.root]) :=
  (Linking.run_perm (Linking.start outline)).2

/-- No node is linked twice. -/
theorem links_nodup (grown : outline.Grown) : ((ofOutline outline).links.map Prod.fst).Nodup := by
  have keys : (Linking.linksOf [outline.root]).map Prod.fst =
      (outline.root.preorder.flatMap fun sub => sub.children.map Rose.label).map Entry.id := by
    simp only [Linking.linksOf, Rose.preorderAll, List.append_nil, List.map_flatMap, List.map_map]
    rfl
  have numbered := grown.numbers_nodup
  rw [((links_perm outline).map Prod.fst).nodup_iff, keys,
    ((Rose.children_perm outline.root).map Entry.id).nodup_iff]
  rw [numbers] at numbered
  cases root : outline.root with
  | branch entry children =>
      rw [root, Rose.labels_branch, List.map_cons] at numbered
      exact (List.nodup_cons.mp numbered).2

theorem mem_links_iff (grown : outline.Grown) :
    (child, parent) ∈ (ofOutline outline).links ↔ child ∈ outline.children parent := by
  rw [(links_perm outline).mem_iff, grown.mem_children_iff]
  simp only [Linking.linksOf, Rose.preorderAll, List.append_nil, List.mem_flatMap, List.mem_map,
    Prod.mk.injEq]
  constructor
  · rintro ⟨tree, here, sub, below, rfl, rfl⟩
    exact ⟨tree, here, rfl, sub, below, rfl⟩
  · rintro ⟨tree, here, rfl, sub, below, rfl⟩
    exact ⟨tree, here, sub, below, rfl, rfl⟩

/-- When a child is linked, the links before have none for it. -/
theorem unlinked (grown : outline.Grown) {after before : List (Nat × Nat)} {link : Nat × Nat}
    (split : (ofOutline outline).links = after ++ link :: before) :
    (ParentTable.mk before).parent? link.1 = none := by
  have once := links_nodup grown
  rw [split, List.map_append, List.map_cons] at once
  have apart := (List.nodup_cons.mp (List.nodup_append.mp once).2.1).1
  refine List.lookup_eq_none_iff.mpr fun earlier found => ?_
  have other : link.1 ≠ earlier.1 := fun same => apart (same ▸ List.mem_map_of_mem found)
  simpa using other

/-- The parent of a node is the one that has it as a child. -/
theorem parent?_eq_some_iff (grown : outline.Grown) :
    (ofOutline outline).parent? child = some parent ↔ child ∈ outline.children parent := by
  rw [← mem_links_iff grown]
  constructor
  · intro linked
    obtain ⟨before, after, split, -⟩ := List.lookup_eq_some_iff.mp linked
    rw [split]
    exact List.mem_append_cons_self
  · intro linked
    have once := links_nodup grown
    obtain ⟨before, after, split⟩ := List.append_of_mem linked
    refine List.lookup_eq_some_iff.mpr ⟨before, after, split, fun link earlier => ?_⟩
    rw [split, List.map_append, List.map_cons] at once
    have apart : link.1 ≠ child := fun same =>
      List.disjoint_of_nodup_append once (List.mem_map_of_mem earlier) (same ▸ List.mem_cons_self)
    simpa using apart.symm

/-- The parent of a child is the node that it is a child of. -/
theorem parent?_of_mem_children (grown : outline.Grown) {tree sub : Rose Entry}
    (here : tree ∈ outline.root.preorder) (below : sub ∈ tree.children) :
    (ofOutline outline).parent? sub.label.id = some tree.label.id :=
  (parent?_eq_some_iff grown).mpr (grown.mem_children_iff.mpr ⟨tree, here, rfl, sub, below, rfl⟩)

/-- A parent is a node of the outline. -/
theorem parent?_lt (grown : outline.Grown)
    (found : (ofOutline outline).parent? child = some parent) : parent < outline.size :=
  grown.lt_of_mem_children ((parent?_eq_some_iff grown).mp found)

/-- The parent of a node is what it was before a push. -/
theorem parent?_push (grown : outline.Grown) {above : Nat} (inside : above < outline.size)
    (node : Node) {id : Nat} (old : id < outline.size) :
    (ofOutline (outline.push above node)).parent? id = (ofOutline outline).parent? id := by
  refine Option.ext fun parent => ?_
  have further := Grown.push above node grown inside
  rw [parent?_eq_some_iff further, parent?_eq_some_iff grown, children_push grown inside,
    List.mem_append]
  refine or_iff_left fun newest => ?_
  split at newest
  · exact Nat.ne_of_lt old (List.mem_singleton.mp newest)
  · cases newest

end ParentTable

end DocSig
