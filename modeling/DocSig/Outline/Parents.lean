import DocSig.Outline.Basic

/-!
The parent of every node of an outline, as a table of its own.

A pass over the outline links the children of one node after the other to it (`Linking.step`),
with the nodes to come on a stack. A table keeps what it says when the outline grows: a node that
is younger than the table has no parent in it.
-/

set_option autoImplicit false

namespace DocSig

structure ParentTable where
  links : List (Nat × Nat)
deriving Repr, BEq, DecidableEq

/-- The parent of a node, as it was linked last; the program has none. -/
def ParentTable.parent? (table : ParentTable) (id : Nat) : Option Nat := table.links.lookup id

/-- A pass that is under way: the subtrees whose children have yet to be linked, next one first,
and the links so far. -/
structure Linking where
  stack : List (Rose Entry)
  table : ParentTable

namespace Linking

def link (parent : Nat) (linking : Linking) (child : Rose Entry) : Linking :=
  ⟨child :: linking.stack, ⟨(child.label.id, parent) :: linking.table.links⟩⟩

/-- One step: the children of the next node are linked, the last one first, so that the first one
comes next. -/
def step (linking : Linking) : Option Linking :=
  match linking.stack with
  | [] => none
  | tree :: stack =>
    some (tree.children.reverse.foldl (link tree.label.id) ⟨stack, linking.table⟩)

def work (linking : Linking) : Nat := (Rose.preorderAll linking.stack).length

/-- Children that are linked one by one, the last one first, stand on the stack in order, and so
do their links in the table. -/
theorem foldl_link (parent : Nat) (children : List (Rose Entry)) (linking : Linking) :
    children.reverse.foldl (link parent) linking =
      ⟨children ++ linking.stack,
        ⟨children.map (fun child => (child.label.id, parent)) ++ linking.table.links⟩⟩ := by
  rw [List.foldl_reverse]
  induction children with
  | nil => rfl
  | cons child children ih => rw [List.foldr_cons, ih]; rfl

theorem step_branch (entry : Entry) (children stack : List (Rose Entry)) (table : ParentTable) :
    step ⟨.branch entry children :: stack, table⟩ =
      some ⟨children ++ stack,
        ⟨children.map (fun child => (child.label.id, entry.id)) ++ table.links⟩⟩ :=
  congrArg some (foldl_link entry.id children ⟨stack, table⟩)

/-- Every step is one step less to take. -/
theorem work_of_step {linking next : Linking} (stepped : linking.step = some next) :
    linking.work = next.work + 1 := by
  obtain ⟨stack, table⟩ := linking
  match stack with
  | [] => cases stepped
  | .branch entry children :: stack =>
      rw [step_branch] at stepped
      cases stepped
      simp [work, Rose.preorderAll, Rose.preorder, Rose.preorderAll_append]

def run (linking : Linking) : Linking :=
  match _ : linking.step with
  | none => linking
  | some next => run next
termination_by linking.work
decreasing_by
  have := work_of_step ‹linking.step = some next›
  omega

def start (outline : Outline) : Linking := ⟨[outline.root], ⟨[]⟩⟩

end Linking

namespace ParentTable

def ofOutline (outline : Outline) : ParentTable := (Linking.start outline).run.table

/-- The nodes around a node, nearest first. The walk goes on from a parent only if that is older,
so that it ends for any table. In the table of an outline that has grown by pushes the test never
fails: there the walk goes from parent to parent up to the program (`ParentTable.Leads`). -/
def ancestors (table : ParentTable) (id : Nat) : List Nat :=
  match table.parent? id with
  | none => []
  | some parent => parent :: if parent < id then table.ancestors parent else []
termination_by id

end ParentTable

end DocSig
