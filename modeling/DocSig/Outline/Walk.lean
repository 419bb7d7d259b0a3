import DocSig.Outline.Rose

/-!
A walk over a tree that visits children before their parent, with a stack of its own in the place
of recursion, so that deep trees need no deep calls.
-/

set_option autoImplicit false

namespace DocSig.Rose

/-- A walk that is under way: the subtrees to come, next one first, each with whether its
children are on the stack already, and what the visits have found so far. -/
structure Walk (α σ : Type) where
  stack : List (Rose α × Bool)
  found : σ

namespace Walk

variable {α σ : Type}

/-- One step. A subtree that comes up for the first time goes back below its children, of which
the leftmost comes next; one that comes up again is visited. -/
def step (visit : α → σ → σ) (walk : Walk α σ) : Option (Walk α σ) :=
  match walk.stack with
  | [] => none
  | (tree, false) :: stack =>
    some ⟨tree.children.reverse.foldl (fun stack child => (child, false) :: stack)
      ((tree, true) :: stack), walk.found⟩
  | (tree, true) :: stack => some ⟨stack, visit tree.label walk.found⟩

/-- The steps that an entry of the stack still takes: two for each node that has not come up. -/
def cost : Rose α × Bool → Nat
  | (_, true) => 1
  | (tree, false) => 2 * tree.preorder.length

def totalCost : List (Rose α × Bool) → Nat
  | [] => 0
  | entry :: stack => cost entry + totalCost stack

def work (walk : Walk α σ) : Nat := totalCost walk.stack

/-- Children that are put on the stack one by one, the last one first, stand there in order. -/
theorem foldl_reverse_children (children : List (Rose α)) (stack : List (Rose α × Bool)) :
    children.reverse.foldl (fun stack child => (child, false) :: stack) stack =
      children.map (fun child => (child, false)) ++ stack := by
  rw [List.foldl_reverse]
  induction children with
  | nil => rfl
  | cons child children ih => simp [ih]

theorem totalCost_children (children : List (Rose α)) (stack : List (Rose α × Bool)) :
    totalCost (children.map (fun child => (child, false)) ++ stack) =
      2 * (preorderAll children).length + totalCost stack := by
  induction children with
  | nil => simp [preorderAll]
  | cons child children ih =>
      simp only [List.map_cons, List.cons_append, totalCost, cost, ih, preorderAll,
        List.length_append]
      omega

/-- Every step is one step less to take. -/
theorem work_of_step {visit : α → σ → σ} {walk next : Walk α σ}
    (stepped : walk.step visit = some next) : walk.work = next.work + 1 := by
  obtain ⟨stack, found⟩ := walk
  match stack with
  | [] => cases stepped
  | (.branch label children, false) :: stack =>
      cases stepped
      simp only [work, Rose.children, foldl_reverse_children, totalCost_children, totalCost, cost,
        preorder, List.length_cons]
      omega
  | (tree, true) :: stack =>
      cases stepped
      simp only [work, totalCost, cost]
      omega

def run (visit : α → σ → σ) (walk : Walk α σ) : Walk α σ :=
  match _ : walk.step visit with
  | none => walk
  | some next => run visit next
termination_by walk.work
decreasing_by
  have := work_of_step ‹walk.step visit = some next›
  omega

def start (tree : Rose α) (found : σ) : Walk α σ := ⟨[(tree, false)], found⟩

end Walk

end DocSig.Rose
