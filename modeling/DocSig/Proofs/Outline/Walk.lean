import DocSig.Outline.Walk
import Mathlib.Data.List.Basic

/-!
The walk with a stack visits what the recursive walk lists, in the same order.

What is on the stack stands for the subtrees that are still to be visited (`pending`). A step
that puts children on the stack leaves them as they are, and a visit takes off the first one, so
the fold of the visits over them never changes (`fold_of_step`).
-/

set_option autoImplicit false

namespace DocSig.Rose.Walk

variable {α σ : Type}

/-- The subtrees that a stack still has visited, in order. -/
def pending : List (Rose α × Bool) → List (Rose α)
  | [] => []
  | (tree, true) :: stack => tree :: pending stack
  | (tree, false) :: stack => tree.postorder ++ pending stack

def fold (visit : α → σ → σ) (trees : List (Rose α)) (found : σ) : σ :=
  trees.foldl (fun found tree => visit tree.label found) found

theorem pending_children (children : List (Rose α)) (stack : List (Rose α × Bool)) :
    pending (children.map (fun child => (child, false)) ++ stack) =
      postorderAll children ++ pending stack := by
  induction children with
  | nil => rfl
  | cons child children ih => simp [pending, postorderAll, ih]

/-- One step: what the visits to come will find stays the same. -/
theorem fold_of_step {visit : α → σ → σ} {walk next : Walk α σ}
    (stepped : walk.step visit = some next) :
    fold visit (pending walk.stack) walk.found = fold visit (pending next.stack) next.found := by
  obtain ⟨stack, found⟩ := walk
  match stack with
  | [] => cases stepped
  | (.branch label children, false) :: stack =>
      cases stepped
      simp only [Rose.children, foldl_reverse_children, pending_children]
      simp [pending, postorder]
  | (tree, true) :: stack =>
      cases stepped
      rfl

theorem step_eq_none {visit : α → σ → σ} {walk : Walk α σ} (stopped : walk.step visit = none) :
    walk.stack = [] := by
  obtain ⟨stack, found⟩ := walk
  match stack with
  | [] => rfl
  | (_, false) :: _ => cases stopped
  | (_, true) :: _ => cases stopped

/-- A whole walk: every subtree that the stack stands for is visited, and nothing else. -/
theorem run_eq (visit : α → σ → σ) (walk : Walk α σ) :
    walk.run visit = ⟨[], fold visit (pending walk.stack) walk.found⟩ := by
  -- along the run; the fold over what is pending stays the same from step to step
  fun_induction run visit walk with
  | case1 walk stopped =>
      have empty := step_eq_none stopped
      obtain ⟨stack, found⟩ := walk
      subst empty
      rfl
  | case2 walk next stepped ih => rw [ih, fold_of_step stepped]

def steps (visit : α → σ → σ) : Nat → Walk α σ → Option (Walk α σ)
  | 0, walk => some walk
  | count + 1, walk => (walk.step visit).bind (steps visit count)

/-- A walk ends after the steps that were left of it. -/
theorem steps_work (visit : α → σ → σ) (walk : Walk α σ) :
    steps visit walk.work walk = some (walk.run visit) := by
  fun_induction run visit walk with
  | case1 walk stopped =>
      have none_left : walk.work = 0 := by rw [work, step_eq_none stopped, totalCost]
      rw [none_left]
      rfl
  | case2 walk next stepped ih => rw [work_of_step stepped, steps, stepped, Option.bind_some, ih]

theorem work_start (tree : Rose α) (found : σ) :
    (start tree found).work = 2 * tree.preorder.length := by
  simp [work, start, totalCost, cost]

theorem run_start (visit : α → σ → σ) (tree : Rose α) (found : σ) :
    (start tree found).run visit = ⟨[], fold visit tree.postorder found⟩ := by
  rw [run_eq]
  simp [start, pending]

end DocSig.Rose.Walk
