/-!
Trees whose nodes have any number of children in order, with their walks: parents before
children (`preorder`) and children before parents (`postorder`).
-/

set_option autoImplicit false

namespace DocSig

inductive Rose (α : Type) where
  | branch (label : α) (children : List (Rose α))
deriving Repr

namespace Rose

variable {α : Type}

def label : Rose α → α
  | .branch label _ => label

def children : Rose α → List (Rose α)
  | .branch _ children => children

mutual

/-- All subtrees, each before those below it, left to right. -/
def preorder : Rose α → List (Rose α)
  | .branch label children => .branch label children :: preorderAll children

def preorderAll : List (Rose α) → List (Rose α)
  | [] => []
  | tree :: trees => preorder tree ++ preorderAll trees

end

theorem preorderAll_append (trees others : List (Rose α)) :
    preorderAll (trees ++ others) = preorderAll trees ++ preorderAll others := by
  induction trees with
  | nil => rfl
  | cons tree trees ih => simp [preorderAll, ih]

mutual

/-- All subtrees, each behind those below it, left to right. -/
def postorder : Rose α → List (Rose α)
  | .branch label children => postorderAll children ++ [.branch label children]

def postorderAll : List (Rose α) → List (Rose α)
  | [] => []
  | tree :: trees => postorder tree ++ postorderAll trees

end

end Rose

end DocSig
