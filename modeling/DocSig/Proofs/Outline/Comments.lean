import DocSig.Outline.Basic

/-!
Outlines that differ in the comment of one node.
-/

set_option autoImplicit false

namespace DocSig

namespace Rose

variable {α : Type}

mutual

/-- A tree of the same shape with other labels. -/
def relabel (f : α → α) : Rose α → Rose α
  | .branch label children => .branch (f label) (relabelAll f children)

def relabelAll (f : α → α) : List (Rose α) → List (Rose α)
  | [] => []
  | tree :: trees => relabel f tree :: relabelAll f trees

end

@[simp] theorem label_relabel (f : α → α) (tree : Rose α) :
    (tree.relabel f).label = f tree.label := by
  cases tree
  rfl

mutual

theorem preorder_relabel (f : α → α) : ∀ tree : Rose α,
    (tree.relabel f).preorder = tree.preorder.map (relabel f)
  | .branch label children => by
      simp [relabel, preorder, preorderAll_relabel f children]

theorem preorderAll_relabel (f : α → α) : ∀ trees : List (Rose α),
    preorderAll (relabelAll f trees) = (preorderAll trees).map (relabel f)
  | [] => rfl
  | tree :: trees => by
      simp [relabelAll, preorderAll, preorder_relabel f tree, preorderAll_relabel f trees]

end

mutual

theorem postorder_relabel (f : α → α) : ∀ tree : Rose α,
    (tree.relabel f).postorder = tree.postorder.map (relabel f)
  | .branch label children => by
      simp [relabel, postorder, postorderAll_relabel f children]

theorem postorderAll_relabel (f : α → α) : ∀ trees : List (Rose α),
    postorderAll (relabelAll f trees) = (postorderAll trees).map (relabel f)
  | [] => rfl
  | tree :: trees => by
      simp [relabelAll, postorderAll, postorder_relabel f tree, postorderAll_relabel f trees]

end

end Rose

namespace Outline

/-- An entry with another comment, if it has the number. -/
def commentAt (id : Nat) (comment : Option Text) (entry : Entry) : Entry :=
  if entry.id = id then ⟨⟨entry.kind, entry.line, comment⟩, entry.id⟩ else entry

def withComment (outline : Outline) (id : Nat) (comment : Option Text) : Outline :=
  ⟨outline.root.relabel (commentAt id comment), outline.size⟩

@[simp] theorem commentAt_id (id : Nat) (comment : Option Text) (entry : Entry) :
    (commentAt id comment entry).id = entry.id := by
  unfold commentAt
  split <;> rfl

@[simp] theorem commentAt_kind (id : Nat) (comment : Option Text) (entry : Entry) :
    (commentAt id comment entry).kind = entry.kind := by
  unfold commentAt
  split <;> rfl

theorem commentAt_other {id : Nat} {entry : Entry} (comment : Option Text) (other : entry.id ≠ id) :
    commentAt id comment entry = entry := if_neg other

theorem find?_withComment (outline : Outline) (id : Nat) (comment : Option Text) (wanted : Nat) :
    (outline.withComment id comment).find? wanted =
      (outline.find? wanted).map (Rose.relabel (commentAt id comment)) := by
  simp only [find?, withComment, Rose.preorder_relabel, List.find?_map]
  congr 2
  funext tree
  simp

end Outline

end DocSig
