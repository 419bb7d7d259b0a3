import DocSig.Proofs.Outline.Grown

/-!
The numbers that nodes get when they are pushed in the order in which they are read.

`plant` pushes the nodes of a tree: a node, all that is below it, and then what stands to the
right of it. Each push puts the next number at the place where `number` has it (`plantAll_eq`). So
the numbers of an outline that is made in this way are the places of its nodes in the preorder walk
(`ids_ofForest`).
-/

set_option autoImplicit false

namespace DocSig

namespace Outline

open Rose

mutual

/-- Adds some trees behind the children of every node numbered `parent`. -/
def attach (parent : Nat) (trees : List (Rose Entry)) : Rose Entry → Rose Entry
  | .branch entry children =>
    .branch entry (attachAll parent trees children ++ if entry.id = parent then trees else [])

def attachAll (parent : Nat) (trees : List (Rose Entry)) : List (Rose Entry) → List (Rose Entry)
  | [] => []
  | tree :: others => attach parent trees tree :: attachAll parent trees others

end

theorem attachAll_append (parent : Nat) (trees left right : List (Rose Entry)) :
    attachAll parent trees (left ++ right) =
      attachAll parent trees left ++ attachAll parent trees right := by
  induction left with
  | nil => rfl
  | cons tree left ih => simp [attachAll, ih]

mutual

theorem graft_eq_attach (parent : Nat) (leaf : Entry) : ∀ tree : Rose Entry,
    graft parent leaf tree = attach parent [.branch leaf []] tree
  | .branch entry children => by
      rw [graft, attach, graftAll_eq_attachAll parent leaf children]

theorem graftAll_eq_attachAll (parent : Nat) (leaf : Entry) : ∀ trees : List (Rose Entry),
    graftAll parent leaf trees = attachAll parent [.branch leaf []] trees
  | [] => rfl
  | tree :: trees => by
      rw [graftAll, attachAll, graft_eq_attach parent leaf tree,
        graftAll_eq_attachAll parent leaf trees]

end

mutual

theorem attach_nil (parent : Nat) : ∀ tree : Rose Entry, attach parent [] tree = tree
  | .branch entry children => by
      rw [attach, attachAll_nil parent children, ite_self, List.append_nil]

theorem attachAll_nil (parent : Nat) : ∀ trees : List (Rose Entry),
    attachAll parent [] trees = trees
  | [] => rfl
  | tree :: trees => by rw [attachAll, attach_nil parent tree, attachAll_nil parent trees]

end

mutual

/-- Without the parent there is no place to add anything. -/
theorem attach_of_absent {parent : Nat} (trees : List (Rose Entry)) : ∀ tree : Rose Entry,
    (∀ entry ∈ labels tree, entry.id ≠ parent) → attach parent trees tree = tree
  | .branch entry children, absent => by
      rw [labels_branch, List.forall_mem_cons] at absent
      rw [attach, attachAll_of_absent trees children absent.2, if_neg absent.1, List.append_nil]

theorem attachAll_of_absent {parent : Nat} (trees : List (Rose Entry)) :
    ∀ others : List (Rose Entry), (∀ entry ∈ labelsAll others, entry.id ≠ parent) →
      attachAll parent trees others = others
  | [], _ => rfl
  | tree :: others, absent => by
      rw [labelsAll_cons, List.forall_mem_append] at absent
      rw [attachAll, attach_of_absent trees tree absent.1,
        attachAll_of_absent trees others absent.2]

end

mutual

/-- Trees that are added one after the other stand side by side. -/
theorem attach_attach {parent : Nat} {first : List (Rose Entry)} (more : List (Rose Entry))
    (absent : ∀ entry ∈ labelsAll first, entry.id ≠ parent) : ∀ tree : Rose Entry,
    attach parent more (attach parent first tree) = attach parent (first ++ more) tree
  | .branch entry children => by
      rw [attach, attach, attach, attachAll_append, attachAll_attachAll more absent children]
      split
      · rw [attachAll_of_absent more first absent, List.append_assoc]
      · rw [attachAll, List.append_nil]

theorem attachAll_attachAll {parent : Nat} {first : List (Rose Entry)} (more : List (Rose Entry))
    (absent : ∀ entry ∈ labelsAll first, entry.id ≠ parent) : ∀ trees : List (Rose Entry),
    attachAll parent more (attachAll parent first trees) = attachAll parent (first ++ more) trees
  | [] => rfl
  | tree :: trees => by
      rw [attachAll, attachAll, attachAll, attach_attach more absent tree,
        attachAll_attachAll more absent trees]

end

mutual

/-- What is added below a leaf that has just come in stands below that leaf and nowhere else. -/
theorem attach_below (parent : Nat) (leaf : Entry) (below : List (Rose Entry)) :
    ∀ tree : Rose Entry, (∀ entry ∈ labels tree, entry.id ≠ leaf.id) →
      attach leaf.id below (attach parent [.branch leaf []] tree) =
        attach parent [.branch leaf below] tree
  | .branch entry children, fresh => by
      rw [labels_branch, List.forall_mem_cons] at fresh
      have here : attach leaf.id below (.branch leaf []) = .branch leaf below := by
        simp [attach, attachAll]
      rw [attach, attach, attach, attachAll_append,
        attachAll_below parent leaf below children fresh.2, if_neg fresh.1, List.append_nil]
      split
      · rw [attachAll, here, attachAll]
      · rw [attachAll]

theorem attachAll_below (parent : Nat) (leaf : Entry) (below : List (Rose Entry)) :
    ∀ trees : List (Rose Entry), (∀ entry ∈ labelsAll trees, entry.id ≠ leaf.id) →
      attachAll leaf.id below (attachAll parent [.branch leaf []] trees) =
        attachAll parent [.branch leaf below] trees
  | [], _ => rfl
  | tree :: trees, fresh => by
      rw [labelsAll_cons, List.forall_mem_append] at fresh
      rw [attachAll, attachAll, attachAll, attach_below parent leaf below tree fresh.1,
        attachAll_below parent leaf below trees fresh.2]

end

mutual

/-- Numbers the nodes of a tree from `next` on, parents before children; also gives the number
behind the last one. -/
def number (next : Nat) : Rose Node → Rose Entry × Nat
  | .branch node children =>
    let (children, after) := numberAll (next + 1) children
    (.branch ⟨node, next⟩ children, after)

/-- Numbers the nodes of a list of trees, left to right. -/
def numberAll (next : Nat) : List (Rose Node) → List (Rose Entry) × Nat
  | [] => ([], next)
  | tree :: trees =>
    let (tree, next) := number next tree
    let (trees, next) := numberAll next trees
    (tree :: trees, next)

end

/-- The program with the given trees below it. -/
def ofForest (trees : List (Rose Node)) : Outline :=
  let (root, size) := number 0 (.branch program trees)
  ⟨root, size⟩

mutual

theorem number_snd : ∀ (tree : Rose Node) (next : Nat),
    (number next tree).2 = next + tree.labels.length
  | .branch node children, next => by
      rw [number, labels_branch, List.length_cons]
      have after := numberAll_snd children (next + 1)
      dsimp only
      omega

theorem numberAll_snd : ∀ (trees : List (Rose Node)) (next : Nat),
    (numberAll next trees).2 = next + (labelsAll trees).length
  | [], _ => rfl
  | tree :: trees, next => by
      rw [numberAll, labelsAll_cons, List.length_append]
      dsimp only
      rw [numberAll_snd trees, number_snd tree, Nat.add_assoc]

end

mutual

/-- The numbers of a tree are given out in the order of the preorder walk. -/
theorem ids_number : ∀ (tree : Rose Node) (next : Nat),
    (labels (number next tree).1).map Entry.id = List.range' next tree.labels.length
  | .branch node children, next => by
      have below := ids_numberAll children (next + 1)
      rw [number, labels_branch, labels_branch, List.map_cons, List.length_cons, List.range'_succ,
        below]

theorem ids_numberAll : ∀ (trees : List (Rose Node)) (next : Nat),
    (labelsAll (numberAll next trees).1).map Entry.id = List.range' next (labelsAll trees).length
  | [], _ => rfl
  | tree :: trees, next => by
      have first := ids_number tree next
      have later := ids_numberAll trees (number next tree).2
      rw [number_snd] at later
      rw [numberAll, labelsAll_cons, labelsAll_cons, List.map_append, List.length_append,
        ← List.range'_append_1, first, number_snd, later]

end

mutual

/-- A subtree of a numbered tree is a subtree that was numbered. -/
theorem eq_number_of_mem : ∀ (tree : Rose Node) (next : Nat), ∀ sub ∈ (number next tree).1.preorder,
    ∃ plain ∈ tree.preorder, ∃ start, sub = (number start plain).1
  | .branch node children, next, sub, found => by
      rw [number, preorder, List.mem_cons] at found
      rcases found with rfl | below
      · exact ⟨.branch node children, by rw [preorder]; exact List.mem_cons_self, next, rfl⟩
      · obtain ⟨plain, inside, start, same⟩ := eq_numberAll_of_mem children (next + 1) sub below
        exact ⟨plain, by rw [preorder]; exact List.mem_cons_of_mem _ inside, start, same⟩

theorem eq_numberAll_of_mem : ∀ (trees : List (Rose Node)) (next : Nat),
    ∀ sub ∈ preorderAll (numberAll next trees).1,
      ∃ plain ∈ preorderAll trees, ∃ start, sub = (number start plain).1
  | [], _, _, found => by cases found
  | tree :: trees, next, sub, found => by
      rw [numberAll, preorderAll, List.mem_append] at found
      rcases found with first | later
      · obtain ⟨plain, inside, start, same⟩ := eq_number_of_mem tree next sub first
        exact ⟨plain, List.mem_append_left _ inside, start, same⟩
      · obtain ⟨plain, inside, start, same⟩ := eq_numberAll_of_mem trees _ sub later
        exact ⟨plain, List.mem_append_right _ inside, start, same⟩

end

theorem label_number (next : Nat) (tree : Rose Node) :
    (number next tree).1.label = ⟨tree.label, next⟩ := by
  cases tree
  rfl

theorem label_of_mem_numberAll {trees : List (Rose Node)} {next : Nat} {sub : Rose Entry}
    (found : sub ∈ (numberAll next trees).1) : ∃ plain ∈ trees, sub.label.toNode = plain.label := by
  induction trees generalizing next with
  | nil => cases found
  | cons tree trees ih =>
      rw [numberAll, List.mem_cons] at found
      rcases found with rfl | later
      · exact ⟨tree, List.mem_cons_self, by rw [label_number]⟩
      · obtain ⟨plain, inside, same⟩ := ih later
        exact ⟨plain, List.mem_cons_of_mem _ inside, same⟩

mutual

/-- Pushes the nodes of a tree below a node: the root, and then all that is below it. -/
def plant (parent : Nat) : Rose Node → Outline → Outline
  | .branch node children, outline => plantAll outline.size children (outline.push parent node)

/-- Pushes the nodes of some trees below a node, left to right. -/
def plantAll (parent : Nat) : List (Rose Node) → Outline → Outline
  | [], outline => outline
  | tree :: trees, outline => plantAll parent trees (plant parent tree outline)

end

theorem plantAll_append (parent : Nat) (trees others : List (Rose Node)) (outline : Outline) :
    plantAll parent (trees ++ others) outline =
      plantAll parent others (plantAll parent trees outline) := by
  induction trees generalizing outline with
  | nil => rw [List.nil_append, plantAll]
  | cons tree trees ih => rw [List.cons_append, plantAll, plantAll, ih]

mutual

theorem plant_grown : ∀ (tree : Rose Node) {outline : Outline} {parent : Nat}, outline.Grown →
    parent < outline.size →
    (plant parent tree outline).Grown ∧ outline.size < (plant parent tree outline).size
  | .branch node children, outline, parent, grown, inside => by
      have own : outline.size < (outline.push parent node).size := Nat.lt_succ_self _
      obtain ⟨below, larger⟩ := plantAll_grown children (Grown.push parent node grown inside) own
      exact ⟨below, Nat.lt_of_lt_of_le own larger⟩

theorem plantAll_grown : ∀ (trees : List (Rose Node)) {outline : Outline} {parent : Nat},
    outline.Grown → parent < outline.size →
    (plantAll parent trees outline).Grown ∧ outline.size ≤ (plantAll parent trees outline).size
  | [], _, _, grown, _ => ⟨grown, Nat.le_refl _⟩
  | tree :: trees, outline, parent, grown, inside => by
      obtain ⟨first, larger⟩ := plant_grown tree grown inside
      obtain ⟨all, further⟩ := plantAll_grown trees first (Nat.lt_trans inside larger)
      exact ⟨all, Nat.le_trans (Nat.le_of_lt larger) further⟩

end

mutual

/-- Pushing the nodes of a tree one by one puts the numbered tree below the parent. -/
theorem plant_eq : ∀ (tree : Rose Node) {outline : Outline} {parent : Nat}, outline.Grown →
    parent < outline.size →
    plant parent tree outline =
      ⟨attach parent [(number outline.size tree).1] outline.root, (number outline.size tree).2⟩
  | .branch node children, outline, parent, grown, inside => by
      have fresh : ∀ entry ∈ labels outline.root, entry.id ≠ outline.size :=
        fun _ found => Nat.ne_of_lt (grown.id_lt found)
      have newest : outline.size < (outline.push parent node).size := Nat.lt_succ_self _
      have below := plantAll_eq children (Grown.push parent node grown inside) newest
      have leaf := attach_below parent ⟨node, outline.size⟩
        (numberAll (outline.size + 1) children).1 outline.root fresh
      rw [plant, below, push, graft_eq_attach, number]
      dsimp only
      rw [leaf]

theorem plantAll_eq : ∀ (trees : List (Rose Node)) {outline : Outline} {parent : Nat},
    outline.Grown → parent < outline.size →
    plantAll parent trees outline =
      ⟨attach parent (numberAll outline.size trees).1 outline.root,
        (numberAll outline.size trees).2⟩
  | [], outline, parent, _, _ => by rw [plantAll, numberAll, attach_nil]
  | tree :: trees, outline, parent, grown, inside => by
      have first := plant_eq tree grown inside
      obtain ⟨planted, larger⟩ := plant_grown tree grown inside
      have all := plantAll_eq trees planted (Nat.lt_trans inside larger)
      -- all that was pushed so far is younger than the parent
      have younger : ∀ entry ∈ labelsAll [(number outline.size tree).1], entry.id ≠ parent := by
        intro entry found
        rw [labelsAll_cons, labelsAll_nil, List.append_nil] at found
        have numbered := List.mem_map_of_mem (f := Entry.id) found
        rw [ids_number, List.mem_range'_1] at numbered
        omega
      rw [plantAll, all, first, numberAll]
      dsimp only
      rw [attach_attach _ younger]
      rfl

end

theorem ofForest_eq_plantAll (trees : List (Rose Node)) :
    ofForest trees = plantAll 0 trees Outline.empty := by
  rw [plantAll_eq trees Grown.empty Nat.zero_lt_one]
  simp [ofForest, number, Outline.empty, attach, attachAll]

/-- An outline that is made at once is one that some pushes make. -/
theorem ofForest_grown (trees : List (Rose Node)) : (ofForest trees).Grown := by
  rw [ofForest_eq_plantAll]
  exact (plantAll_grown trees Grown.empty Nat.zero_lt_one).1

/-- The subtree at a node has the numbers from the node's own on, without a gap. -/
theorem ids_of_mem_ofForest {trees : List (Rose Node)} {sub : Rose Entry}
    (found : sub ∈ (ofForest trees).root.preorder) :
    sub.labels.map Entry.id = List.range' sub.label.id sub.labels.length := by
  obtain ⟨plain, -, start, rfl⟩ := eq_number_of_mem (.branch program trees) 0 sub found
  have counted := congrArg List.length (ids_number plain start)
  rw [List.length_map, List.length_range'] at counted
  rw [counted, label_number, ids_number]

theorem ids_ofForest (trees : List (Rose Node)) :
    (ofForest trees).root.labels.map Entry.id = List.range (ofForest trees).size := by
  have numbered := ids_number (.branch program trees) 0
  have size := number_snd (.branch program trees) 0
  rw [List.range_eq_range']
  rw [Nat.zero_add] at size
  exact numbered.trans (congrArg (List.range' 0) size.symm)

end Outline

namespace Rose

variable {α : Type}

mutual

/-- A label other than that of the root is the label of a child. -/
theorem eq_or_mem_children : ∀ (tree : Rose α), ∀ label ∈ tree.labels,
    label = tree.label ∨ ∃ sub ∈ tree.preorder, ∃ child ∈ sub.children, child.label = label
  | .branch root children, label, found => by
      rw [labels_branch, List.mem_cons] at found
      rcases found with rfl | below
      · exact Or.inl rfl
      · rw [preorder]
        rcases mem_or_mem_children children label below with ⟨child, here, same⟩ | ⟨sub, deep, rest⟩
        · exact Or.inr ⟨.branch root children, List.mem_cons_self, child, here, same⟩
        · exact Or.inr ⟨sub, List.mem_cons_of_mem _ deep, rest⟩

theorem mem_or_mem_children : ∀ (trees : List (Rose α)), ∀ label ∈ labelsAll trees,
    (∃ tree ∈ trees, tree.label = label) ∨
      ∃ sub ∈ preorderAll trees, ∃ child ∈ sub.children, child.label = label
  | [], _, found => by cases found
  | tree :: trees, label, found => by
      rw [labelsAll_cons, List.mem_append] at found
      rw [preorderAll]
      rcases found with first | later
      · rcases eq_or_mem_children tree label first with rfl | ⟨sub, deep, rest⟩
        · exact Or.inl ⟨tree, List.mem_cons_self, rfl⟩
        · exact Or.inr ⟨sub, List.mem_append_left _ deep, rest⟩
      · rcases mem_or_mem_children trees label later with ⟨other, here, same⟩ | ⟨sub, deep, rest⟩
        · exact Or.inl ⟨other, List.mem_cons_of_mem _ here, same⟩
        · exact Or.inr ⟨sub, List.mem_append_right _ deep, rest⟩

end

end Rose

end DocSig
