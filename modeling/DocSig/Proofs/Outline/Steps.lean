import DocSig.Proofs.Outline.Names

/-!
One node of the walk that names an outline.

`walk_branch` says once what the walk does at a node of any kind: which scope its children get,
which scope is left behind it, and what is noted at it. The facts about whole walks follow from
it by induction over the tree; of a scope, what every step keeps holds wherever something is noted
(`Kept.walk`).
-/

set_option autoImplicit false

namespace DocSig

open Lexical Outline

namespace NameTable

def entered (scope : Scope) (entry : Entry) : Scope :=
  match entry.kind with
  | .space name => .inSpace name
  | .classLike kind name parent => scope.inClass (contextOf scope kind name parent)
  | .function .free _ => scope.inFunction
  | _ => scope

/-- What the walk does at a node. Below a leaf it does not go; a node that opens a scope gives
back the one that was in force before it, and the other nodes the one that their children leave. -/
theorem walk_branch (scope : Scope) (entry : Entry) (children : List (Rose Entry)) :
    walk scope (.branch entry children) =
      if isLeaf entry.kind then
        (scope.addImports entry.kind.importList, (namingAt scope entry).toList)
      else
        (if entry.kind.opensScope then scope else (walkAll (entered scope entry) children).1,
          (namingAt scope entry).toList ++ (walkAll (entered scope entry) children).2) := by
  unfold walk namingAt entered
  cases kind : entry.kind with
  | function functionKind name => cases functionKind <;> rfl
  | _ => rfl

theorem walkAll_append (scope : Scope) (trees others : List (Rose Entry)) :
    walkAll scope (trees ++ others) =
      ((walkAll (walkAll scope trees).1 others).1,
        (walkAll scope trees).2 ++ (walkAll (walkAll scope trees).1 others).2) := by
  induction trees generalizing scope with
  | nil => rfl
  | cons tree trees ih => simp [walkAll, ih]

section Keeps

/-- What the steps of the walk keep of a scope, at nodes that fit. -/
structure Kept (Keeps : Scope → Prop) (Fits : Entry → Prop) : Prop where
  entered : ∀ scope entry, Keeps scope → Fits entry → Keeps (entered scope entry)
  imports : ∀ scope entry, Keeps scope → Fits entry →
    Keeps (scope.addImports entry.kind.importList)

variable {Keeps : Scope → Prop} {Fits : Entry → Prop}

mutual

/-- What every step keeps holds behind a tree, and of the scope in force wherever something is
noted. -/
theorem Kept.walk (kept : Kept Keeps Fits) : ∀ (tree : Rose Entry) (scope : Scope), Keeps scope →
    (∀ entry ∈ tree.labels, Fits entry) →
      Keeps (walk scope tree).1 ∧ ∀ naming ∈ (walk scope tree).2,
        ∃ inner entry, Keeps inner ∧ Fits entry ∧ namingAt inner entry = some naming
  | .branch entry children, scope, given, fits => by
      rw [Rose.labels_branch, List.forall_mem_cons] at fits
      have here : ∀ naming ∈ (namingAt scope entry).toList,
          ∃ inner entry, Keeps inner ∧ Fits entry ∧ namingAt inner entry = some naming :=
        fun naming found => ⟨scope, entry, given, fits.1, Option.mem_toList.mp found⟩
      have below := kept.walkAll children (NameTable.entered scope entry)
        (kept.entered scope entry given fits.1) fits.2
      rw [walk_branch]
      split
      · exact ⟨kept.imports scope entry given fits.1, here⟩
      · refine ⟨?_, List.forall_mem_append.mpr ⟨here, below.2⟩⟩
        dsimp only
        split
        · exact given
        · exact below.1

theorem Kept.walkAll (kept : Kept Keeps Fits) : ∀ (trees : List (Rose Entry)) (scope : Scope),
    Keeps scope → (∀ entry ∈ Rose.labelsAll trees, Fits entry) →
      Keeps (walkAll scope trees).1 ∧ ∀ naming ∈ (walkAll scope trees).2,
        ∃ inner entry, Keeps inner ∧ Fits entry ∧ namingAt inner entry = some naming
  | [], _, given, _ => ⟨given, nofun⟩
  | tree :: trees, scope, given, fits => by
      rw [Rose.labelsAll_cons, List.forall_mem_append] at fits
      have first := kept.walk tree scope given fits.1
      have others := kept.walkAll trees (NameTable.walk scope tree).1 first.1 fits.2
      exact ⟨others.1, List.forall_mem_append.mpr ⟨first.2, others.2⟩⟩

end

end Keeps

mutual

/-- A tree that imports nothing leaves the scope as it was. -/
theorem walk_scope : ∀ (tree : Rose Entry) (scope : Scope),
    (∀ entry ∈ tree.labels, entry.kind.importList = []) → (walk scope tree).1 = scope
  | .branch entry children, scope, nothing => by
      rw [Rose.labels_branch, List.forall_mem_cons] at nothing
      have below := walkAll_scope children (entered scope entry) nothing.2
      rw [walk_branch]
      split
      · rw [nothing.1]
        rfl
      · split
        · rfl
        · next through =>
            have same : entered scope entry = scope := by
              unfold entered
              split
              · next opens => exact absurd (by rw [opens]; rfl) through
              · next opens => exact absurd (by rw [opens]; rfl) through
              · next opens => exact absurd (by rw [opens]; rfl) through
              · rfl
            dsimp only
            rw [below, same]

theorem walkAll_scope : ∀ (trees : List (Rose Entry)) (scope : Scope),
    (∀ entry ∈ Rose.labelsAll trees, entry.kind.importList = []) → (walkAll scope trees).1 = scope
  | [], _, _ => rfl
  | tree :: trees, scope, nothing => by
      rw [Rose.labelsAll_cons, List.forall_mem_append] at nothing
      have first := walk_scope tree scope nothing.1
      rw [walkAll]
      dsimp only
      rw [first]
      exact walkAll_scope trees scope nothing.2

end

mutual

/-- What is noted within a subtree, with the scope in force there, is noted by the whole walk. -/
theorem namings_of_mem_preorder : ∀ (tree : Rose Entry) (scope : Scope),
    LeavesBare tree.preorder → ∀ sub ∈ tree.preorder,
      ∃ inner, (walk inner sub).2 ⊆ (walk scope tree).2
  | .branch entry children, scope, bare, sub, found => by
      rw [Rose.preorder, List.mem_cons] at found
      rcases found with rfl | below
      · exact ⟨scope, List.Subset.refl _⟩
      · have noLeaf : isLeaf entry.kind = false := by
          by_contra leaf
          have leaf : isLeaf entry.kind = true := by simpa using leaf
          have empty : children = [] := bare (.branch entry children)
            (by rw [Rose.preorder]; exact List.mem_cons_self) leaf
          rw [empty] at below
          cases below
        obtain ⟨inner, within⟩ := namings_of_mem_preorderAll children (entered scope entry)
          (fun tree found => bare tree (by rw [Rose.preorder]; exact List.mem_cons_of_mem _ found))
          sub below
        refine ⟨inner, ?_⟩
        rw [walk_branch, noLeaf]
        exact List.subset_append_of_subset_right _ within

theorem namings_of_mem_preorderAll : ∀ (trees : List (Rose Entry)) (scope : Scope),
    LeavesBare (Rose.preorderAll trees) → ∀ sub ∈ Rose.preorderAll trees,
      ∃ inner, (walk inner sub).2 ⊆ (walkAll scope trees).2
  | [], _, _, _, found => by cases found
  | tree :: trees, scope, bare, sub, found => by
      rw [Rose.preorderAll, List.mem_append] at found
      rcases found with first | later
      · obtain ⟨inner, within⟩ := namings_of_mem_preorder tree scope
          (fun tree found => bare tree (List.mem_append_left _ found)) sub first
        exact ⟨inner, List.subset_append_of_subset_left _ within⟩
      · obtain ⟨inner, within⟩ := namings_of_mem_preorderAll trees (walk scope tree).1
          (fun tree found => bare tree (List.mem_append_right _ found)) sub later
        exact ⟨inner, List.subset_append_of_subset_right _ within⟩

end

mutual

/-- At most one thing is noted for each node, in the order of the nodes. -/
theorem ids_walk_sublist : ∀ (tree : Rose Entry) (scope : Scope),
    ((walk scope tree).2.map Naming.id).Sublist (tree.labels.map Entry.id)
  | .branch entry children, scope => by
      have here : ((namingAt scope entry).toList.map Naming.id).Sublist [entry.id] := by
        cases noted : namingAt scope entry with
        | none => exact List.nil_sublist _
        | some naming => simp [id_of_namingAt noted]
      have below := ids_walkAll_sublist children (entered scope entry)
      rw [Rose.labels_branch, walk_branch, List.map_cons]
      split
      · exact here.trans (List.Sublist.cons_cons _ (List.nil_sublist _))
      · rw [List.map_append]
        exact here.append below

theorem ids_walkAll_sublist : ∀ (trees : List (Rose Entry)) (scope : Scope),
    ((walkAll scope trees).2.map Naming.id).Sublist ((Rose.labelsAll trees).map Entry.id)
  | [], _ => List.Sublist.refl _
  | tree :: trees, scope => by
      rw [Rose.labelsAll_cons, List.map_append, walkAll, List.map_append]
      exact (ids_walk_sublist tree scope).append (ids_walkAll_sublist trees (walk scope tree).1)

end

/-- What is noted for a node of a grown outline is what its number finds. -/
theorem find?_of_mem {outline : Outline} (grown : outline.Grown) {naming : Naming}
    (found : naming ∈ (ofOutline outline).namings) :
    (ofOutline outline).find? naming.id = some naming := by
  have once : ((ofOutline outline).namings.map Naming.id).Nodup :=
    grown.numbers_nodup.sublist (ids_walk_sublist outline.root Scope.outermost)
  exact find?_of_nodup once found

end NameTable

end DocSig
