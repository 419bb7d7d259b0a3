import DocSig.Proofs.Outline.Linking
import Mathlib.Data.List.Perm.Basic
import Mathlib.Logic.Relation

/-!
The table of parents is the inverse of the child lists.

A push puts a new number behind the children of one node, so each number but the first is in one
child list, behind smaller numbers and below a smaller one (`Outline.Rooted`). The table has a link
for each entry of a child list and no other (`ParentTable.Inverts`), and going from parent to parent
visits the nodes around a node up to the program (`ParentTable.Leads`).
-/

set_option autoImplicit false

namespace DocSig

namespace Outline

open Rose

variable {outline : Outline}

/-- Child lists of a tree over the numbers below the size, older nodes first. -/
structure Rooted (outline : Outline) : Prop where
  /-- Each number but that of the program is in one child list, and there once. -/
  once : ((List.range outline.size).flatMap outline.children).Perm
    (List.range' 1 (outline.size - 1))
  /-- A parent is older than its children. -/
  older : ∀ parent, ∀ child ∈ outline.children parent, parent < child
  ascending : ∀ parent, (outline.children parent).Pairwise (· < ·)

theorem Grown.size_pos (grown : outline.Grown) : 0 < outline.size := by
  cases grown with
  | empty => exact Nat.zero_lt_one
  | push => exact Nat.succ_pos _

/-- Only one of some numbers has something to add. -/
theorem flatMap_single {xs : List Nat} (once : xs.Nodup) {x : Nat} (found : x ∈ xs)
    (ys : List Nat) : (xs.flatMap fun other => if other = x then ys else []) = ys := by
  obtain ⟨before, after, rfl⟩ := List.append_of_mem found
  have apart := List.nodup_middle.mp once
  have nothing : ∀ others : List Nat, x ∉ others →
      (others.flatMap fun other => if other = x then ys else []) = [] := by
    intro others absent
    refine List.flatMap_eq_nil_iff.mpr fun other inside => if_neg ?_
    rintro rfl
    exact absent inside
  have absent := (List.nodup_cons.mp apart).1
  rw [List.flatMap_append, List.flatMap_cons, if_pos rfl,
    nothing before fun inside => absent (List.mem_append_left _ inside),
    nothing after fun inside => absent (List.mem_append_right _ inside), List.nil_append,
    List.append_nil]

/-- The numbers in child lists are those between the program and the size. -/
theorem Rooted.exists_parent_iff (rooted : outline.Rooted) (grown : outline.Grown) {child : Nat} :
    (∃ parent, child ∈ outline.children parent) ↔ 0 < child ∧ child < outline.size := by
  have positive := grown.size_pos
  have listed := rooted.once.mem_iff (a := child)
  rw [List.mem_flatMap, List.mem_range'_1] at listed
  constructor
  · rintro ⟨parent, below⟩
    have inside := List.mem_range.mpr (grown.lt_of_mem_children below)
    have bounds := listed.mp ⟨parent, inside, below⟩
    omega
  · intro bounds
    obtain ⟨parent, -, below⟩ := listed.mpr (by omega)
    exact ⟨parent, below⟩

/-- The newest number comes behind all that were in child lists. -/
theorem Rooted.once_push (rooted : outline.Rooted) (grown : outline.Grown) {parent : Nat}
    (inside : parent < outline.size) (node : Node) :
    ((List.range (outline.size + 1)).flatMap (outline.push parent node).children).Perm
      (List.range' 1 outline.size) := by
  have pushed := children_push grown inside node
  have positive := grown.size_pos
  have newest : (outline.push parent node).children outline.size = [] := by
    rw [pushed, grown.children_of_absent (Nat.le_refl _), if_neg (by omega)]
    rfl
  have added := flatMap_single List.nodup_range (List.mem_range.mpr inside) [outline.size]
  have split := List.flatMap_append_perm (List.range outline.size) outline.children
    fun id => if id = parent then [outline.size] else []
  have behind := List.range'_append_1 (s := 1) (m := outline.size - 1) (n := 1)
  rw [show 1 + (outline.size - 1) = outline.size by omega,
    show outline.size - 1 + 1 = outline.size by omega, List.range'_one] at behind
  rw [List.range_succ, List.flatMap_append, List.flatMap_cons, newest, List.flatMap_nil,
    List.append_nil, List.append_nil, funext pushed, ← behind]
  refine split.symm.trans ?_
  rw [added]
  exact rooted.once.append_right [outline.size]

/-- What one push keeps. -/
theorem Rooted.push (rooted : outline.Rooted) (grown : outline.Grown) {parent : Nat}
    (inside : parent < outline.size) (node : Node) : (outline.push parent node).Rooted := by
  have pushed := children_push grown inside node
  refine ⟨rooted.once_push grown inside node, ?_, ?_⟩
  · intro id child found
    rw [pushed, List.mem_append] at found
    rcases found with old | added
    · exact rooted.older id child old
    · split at added
      · next here =>
          rw [List.mem_singleton.mp added, here]
          exact inside
      · cases added
  · intro id
    rw [pushed]
    refine List.pairwise_append.mpr ⟨rooted.ascending id, by split <;> simp, ?_⟩
    intro old before new added
    split at added
    · rw [List.mem_singleton.mp added]
      exact ((rooted.exists_parent_iff grown).mp ⟨id, before⟩).2
    · cases added

theorem Grown.rooted (grown : outline.Grown) : outline.Rooted := by
  induction grown with
  | empty =>
      have bare : ∀ id, Outline.empty.children id = [] := by
        intro id
        cases id with
        | zero => rfl
        | succ id => exact Grown.empty.children_of_absent (by change 1 ≤ id + 1; omega)
      refine ⟨?_, ?_, ?_⟩
      · exact List.Perm.refl _
      · intro parent child found
        rw [bare] at found
        cases found
      · intro parent
        rw [bare]
        exact List.Pairwise.nil
  | push parent node grown inside ih => exact ih.push grown inside node

/-- A node stands somewhere below another one. -/
def IsBelow (outline : Outline) (id above : Nat) : Prop :=
  Relation.TransGen (fun child parent => child ∈ outline.children parent) id above

end Outline

namespace ParentTable

open Outline

variable {outline : Outline} {id parent : Nat}

/-- A table that says what the child lists of an outline say, read the other way round. -/
structure Inverts (table : ParentTable) (outline : Outline) : Prop where
  /-- Whenever a child is linked, no link before is for it. -/
  unlinked : ∀ after link before, table.links = after ++ link :: before →
    (ParentTable.mk before).parent? link.1 = none
  program : table.parent? 0 = none
  parent : ∀ child parent, table.parent? child = some parent ↔ child ∈ outline.children parent

/-- What going from parent to parent gives: all nodes around a node, from the nearest one to the
program. -/
structure Leads (table : ParentTable) (outline : Outline) (id : Nat) : Prop where
  /-- Each node is followed by its parent. -/
  steps : List.IsChain (fun child parent => table.parent? child = some parent)
    (id :: table.ancestors id)
  /-- Only a node without a parent is followed by none. -/
  ends : ∀ last ∈ (id :: table.ancestors id).getLast?, table.parent? last = none
  descending : (id :: table.ancestors id).Pairwise (· > ·)
  root : 0 < id → id < outline.size → (table.ancestors id).getLast? = some 0
  around : ∀ above, above ∈ table.ancestors id ↔ outline.IsBelow id above

theorem program_alone (grown : outline.Grown) : (ofOutline outline).parent? 0 = none := by
  refine Option.eq_none_iff_forall_ne_some.mpr fun parent linked => ?_
  have below := (parent?_eq_some_iff grown).mp linked
  exact Nat.lt_irrefl 0 ((grown.rooted.exists_parent_iff grown).mp ⟨parent, below⟩).1

theorem ofOutline_inverts (grown : outline.Grown) : (ofOutline outline).Inverts outline :=
  ⟨fun _ _ _ split => unlinked grown split, program_alone grown,
    fun _ _ => parent?_eq_some_iff grown⟩

/-- From a node to its parent, and on from there. -/
theorem ancestors_of_parent (grown : outline.Grown)
    (linked : (ofOutline outline).parent? id = some parent) :
    (ofOutline outline).ancestors id = parent :: (ofOutline outline).ancestors parent := by
  have older := grown.rooted.older parent id ((parent?_eq_some_iff grown).mp linked)
  rw [ancestors, linked]
  dsimp only
  rw [if_pos older]

theorem ancestors_of_none {table : ParentTable} (alone : table.parent? id = none) :
    table.ancestors id = [] := by
  rw [ancestors, alone]

theorem leads_of_none (grown : outline.Grown) (alone : (ofOutline outline).parent? id = none) :
    (ofOutline outline).Leads outline id := by
  have absent : ∀ parent, id ∉ outline.children parent := by
    intro parent below
    rw [(parent?_eq_some_iff grown).mpr below] at alone
    cases alone
  have none_around := ancestors_of_none alone
  refine ⟨?_, ?_, ?_, ?_, ?_⟩
  · rw [none_around]
    exact List.IsChain.singleton id
  · rw [none_around]
    intro last found
    cases found
    exact alone
  · rw [none_around]
    exact List.pairwise_singleton _ id
  · intro younger inside
    obtain ⟨parent, below⟩ := (grown.rooted.exists_parent_iff grown).mpr ⟨younger, inside⟩
    exact absurd below (absent parent)
  · intro above
    rw [none_around]
    refine iff_of_false List.not_mem_nil fun below => ?_
    obtain ⟨parent, first, -⟩ := Relation.TransGen.head'_iff.mp below
    exact absent parent first

theorem leads_of_parent (grown : outline.Grown)
    (linked : (ofOutline outline).parent? id = some parent)
    (further : (ofOutline outline).Leads outline parent) :
    (ofOutline outline).Leads outline id := by
  have below := (parent?_eq_some_iff grown).mp linked
  have older := grown.rooted.older parent id below
  have whole := ancestors_of_parent grown linked
  refine ⟨?_, ?_, ?_, ?_, ?_⟩
  · rw [whole]
    exact List.IsChain.cons_cons linked further.steps
  · rw [whole, List.getLast?_cons_cons]
    exact further.ends
  · rw [whole]
    refine List.pairwise_cons.mpr ⟨fun above found => ?_, further.descending⟩
    rcases List.mem_cons.mp found with rfl | beyond
    · exact older
    · exact Nat.lt_trans ((List.pairwise_cons.mp further.descending).1 above beyond) older
  · intro younger inside
    rw [whole]
    rcases Nat.eq_zero_or_pos parent with rfl | positive
    · rw [ancestors_of_none (program_alone grown)]
      rfl
    · have last := further.root positive (Nat.lt_trans older inside)
      rw [List.getLast?_cons, last, Option.getD_some]
  · intro above
    rw [whole, List.mem_cons, further.around, IsBelow, IsBelow,
      ← Relation.reflTransGen_iff_eq_or_transGen, Relation.TransGen.head'_iff]
    constructor
    · exact fun beyond => ⟨parent, below, beyond⟩
    · rintro ⟨other, first, beyond⟩
      rw [(parent?_eq_some_iff grown).mpr first] at linked
      cases linked
      exact beyond

theorem ofOutline_leads (grown : outline.Grown) (id : Nat) :
    (ofOutline outline).Leads outline id := by
  -- on the number, since a parent has a smaller one
  induction id using Nat.strongRecOn with
  | ind id ih =>
      cases linked : (ofOutline outline).parent? id with
      | none => exact leads_of_none grown linked
      | some parent =>
          have older := grown.rooted.older parent id ((parent?_eq_some_iff grown).mp linked)
          exact leads_of_parent grown linked (ih parent older)

/-- The child lists of a grown outline are those of a tree whose nodes are older than what is below
them. The pass that links them ends after a step for each node, with a table that says the same the
other way round, and from every node the table leads through the nodes around it to the program. -/
theorem ofOutline_inverse (grown : outline.Grown) :
    outline.Rooted ∧
      Linking.steps outline.size (Linking.start outline) = some ⟨[], ofOutline outline⟩ ∧
      (ofOutline outline).Inverts outline ∧ ∀ id, (ofOutline outline).Leads outline id :=
  ⟨grown.rooted, steps_size grown, ofOutline_inverts grown, ofOutline_leads grown⟩

/-- An outline whose nodes came in another order than that of the source. -/
def scatteredOutline : Outline :=
  ((((Outline.empty.push 0 ⟨.block, 1, none⟩).push 0 ⟨.block, 5, none⟩).push 1
    ⟨.block, 2, none⟩).push 2 ⟨.block, 6, none⟩).push 3 ⟨.block, 3, none⟩

theorem scatteredOutline_grown : scatteredOutline.Grown :=
  .push 3 _ (.push 2 _ (.push 1 _ (.push 0 _ (.push 0 _ .empty (by decide)) (by decide))
    (by decide)) (by decide)) (by decide)

theorem ofOutline_scatteredOutline :
    scatteredOutline.Grown ∧ (ofOutline scatteredOutline).parent? 5 = some 3 ∧
      (∀ above, above ∈ [3, 1, 0] ↔ scatteredOutline.IsBelow 5 above) ∧
      [3, 1, 0].getLast? = some 0 := by
  obtain ⟨-, -, inverts, leads⟩ := ofOutline_inverse scatteredOutline_grown
  have linked : (ofOutline scatteredOutline).parent? 5 = some 3 :=
    (inverts.parent 5 3).mpr (by decide)
  have chain : (ofOutline scatteredOutline).ancestors 5 = [3, 1, 0] := by
    rw [ancestors_of_parent scatteredOutline_grown linked,
      ancestors_of_parent scatteredOutline_grown ((inverts.parent 3 1).mpr (by decide)),
      ancestors_of_parent scatteredOutline_grown ((inverts.parent 1 0).mpr (by decide)),
      ancestors_of_none inverts.program]
  exact ⟨scatteredOutline_grown, linked, chain ▸ (leads 5).around,
    chain ▸ (leads 5).root (by decide) (by decide)⟩

end ParentTable

end DocSig
