import DocSig.Proofs.Outline.Grown

/-!
The child lists of an outline that has grown node by node.

The children of a node are those of the subtree at it (`Grown.mem_children_iff`). A push puts the
new number behind the children of its parent and changes no other child list (`children_push`).
-/

set_option autoImplicit false

namespace DocSig.Outline

open Rose

variable {outline : Outline}

@[simp] theorem label_graft (parent : Nat) (leaf : Entry) (tree : Rose Entry) :
    (graft parent leaf tree).label = tree.label := by
  cases tree
  rw [graft]
  rfl

mutual

/-- A subtree of a grafted tree is a subtree that was there, grafted itself, or the leaf. -/
theorem eq_graft_of_mem (parent : Nat) (leaf : Entry) : ∀ tree : Rose Entry,
    ∀ sub ∈ (graft parent leaf tree).preorder,
      (∃ old ∈ tree.preorder, sub = graft parent leaf old) ∨ sub = .branch leaf []
  | .branch entry children, sub, found => by
      rw [preorder]
      rw [graft, preorder, List.mem_cons, preorderAll_append, List.mem_append] at found
      rcases found with rfl | below | added
      · exact Or.inl ⟨.branch entry children, List.mem_cons_self, by rw [graft]⟩
      · rcases eq_graftAll_of_mem parent leaf children sub below with ⟨old, inside, same⟩ | same
        · exact Or.inl ⟨old, List.mem_cons_of_mem _ inside, same⟩
        · exact Or.inr same
      · split at added
        · exact Or.inr (by simpa [preorderAll, preorder] using added)
        · cases added

theorem eq_graftAll_of_mem (parent : Nat) (leaf : Entry) : ∀ trees : List (Rose Entry),
    ∀ sub ∈ preorderAll (graftAll parent leaf trees),
      (∃ old ∈ preorderAll trees, sub = graft parent leaf old) ∨ sub = .branch leaf []
  | [], _, found => by cases found
  | tree :: trees, sub, found => by
      rw [preorderAll]
      rw [graftAll, preorderAll, List.mem_append] at found
      rcases found with first | later
      · rcases eq_graft_of_mem parent leaf tree sub first with ⟨old, inside, same⟩ | same
        · exact Or.inl ⟨old, List.mem_append_left _ inside, same⟩
        · exact Or.inr same
      · rcases eq_graftAll_of_mem parent leaf trees sub later with ⟨old, inside, same⟩ | same
        · exact Or.inl ⟨old, List.mem_append_right _ inside, same⟩
        · exact Or.inr same

end

theorem Grown.exists_subtree (grown : outline.Grown) {id : Nat} (inside : id < outline.size) :
    ∃ tree ∈ outline.root.preorder, tree.label.id = id := by
  obtain ⟨entry, found, rfl⟩ : ∃ entry ∈ labels outline.root, entry.id = id :=
    List.mem_map.mp (grown.numbers_perm.mem_iff.mpr (List.mem_range.mpr inside))
  obtain ⟨tree, here, rfl⟩ := List.mem_map.mp found
  exact ⟨tree, here, rfl⟩

theorem Grown.children_of_mem (grown : outline.Grown) {tree : Rose Entry}
    (found : tree ∈ outline.root.preorder) :
    outline.children tree.label.id = tree.children.map fun child => child.label.id := by
  rw [children, grown.find?_of_mem found]

theorem Grown.children_of_absent (grown : outline.Grown) {id : Nat} (outside : outline.size ≤ id) :
    outline.children id = [] := by
  have absent : outline.find? id = none := by
    refine List.find?_eq_none.mpr fun tree found same => ?_
    have inside := grown.id_lt (List.mem_map_of_mem found)
    have same : tree.label.id = id := by simpa using same
    omega
  rw [children, absent]

theorem Grown.lt_of_mem_children (grown : outline.Grown) {child parent : Nat}
    (found : child ∈ outline.children parent) : parent < outline.size := by
  by_contra outside
  rw [grown.children_of_absent (Nat.le_of_not_lt outside)] at found
  cases found

theorem Grown.mem_children_iff (grown : outline.Grown) {child parent : Nat} :
    child ∈ outline.children parent ↔
      ∃ tree ∈ outline.root.preorder, tree.label.id = parent ∧
        ∃ sub ∈ tree.children, sub.label.id = child := by
  constructor
  · intro found
    obtain ⟨tree, here, rfl⟩ := grown.exists_subtree (grown.lt_of_mem_children found)
    rw [grown.children_of_mem here] at found
    exact ⟨tree, here, rfl, List.mem_map.mp found⟩
  · rintro ⟨tree, here, rfl, below⟩
    rw [grown.children_of_mem here]
    exact List.mem_map.mpr below

theorem children_graft (parent : Nat) (leaf : Entry) (tree : Rose Entry) :
    ((graft parent leaf tree).children.map fun child => child.label.id) =
      (tree.children.map fun child => child.label.id) ++
        if tree.label.id = parent then [leaf.id] else [] := by
  have below : ∀ trees : List (Rose Entry),
      ((graftAll parent leaf trees).map fun child => child.label.id) =
        trees.map fun child => child.label.id := by
    intro trees
    induction trees with
    | nil => rfl
    | cons tree trees ih => rw [graftAll, List.map_cons, List.map_cons, label_graft, ih]
  obtain ⟨entry, children⟩ := tree
  rw [graft, Rose.children, List.map_append, below]
  split
  · next here => rw [Rose.label, if_pos here]; rfl
  · next other => rw [Rose.label, if_neg other]; rfl

/-- A push puts the new number behind the children of the parent. -/
theorem children_push (grown : outline.Grown) {parent : Nat} (inside : parent < outline.size)
    (node : Node) (id : Nat) :
    (outline.push parent node).children id =
      outline.children id ++ if id = parent then [outline.size] else [] := by
  have further := Grown.push parent node grown inside
  by_cases within : id < outline.size + 1
  · obtain ⟨sub, here, rfl⟩ : ∃ sub ∈ (outline.push parent node).root.preorder,
        sub.label.id = id := further.exists_subtree within
    rw [further.children_of_mem here]
    rcases eq_graft_of_mem parent ⟨node, outline.size⟩ outline.root sub here with
      ⟨old, there, rfl⟩ | rfl
    · rw [label_graft, grown.children_of_mem there, children_graft]
    · rw [Rose.label, grown.children_of_absent (Nat.le_refl _), if_neg (by dsimp only; omega)]
      rfl
  · rw [further.children_of_absent (by change outline.size + 1 ≤ id; omega),
      grown.children_of_absent (by omega), if_neg (by omega)]
    rfl

end DocSig.Outline
