import DocSig.Proofs.Extraction.Independence
import DocSig.Proofs.Outline.Growth

/-!
Extraction with tables that are older than the outline.

As long as nothing is imported since, a function that was there when the tables were made gives
with them what it gives with tables of the whole outline, and what it gave then.
-/

set_option autoImplicit false

namespace DocSig.Extraction

open Outline

variable {old new : Outline} {read : CommentReader} {qualified : Bool}

theorem declaredName_congr {names otherNames : NameTable} {entry : Entry}
    (same : otherNames.find? entry.id = names.find? entry.id) :
    declaredName otherNames entry = declaredName names entry := by
  unfold declaredName NameTable.name?
  rw [same]

/-- The class of a member is told by the member's parent, what stands there, and its name. -/
theorem className?_congr {outline otherOutline : Outline} {parents otherParents : ParentTable}
    {names otherNames : NameTable} {node : Entry}
    (sameParent : otherParents.parent? node.id = parents.parent? node.id)
    (sameNode : ∀ id, parents.parent? node.id = some id →
      (otherOutline.find? id).map Rose.label = (outline.find? id).map Rose.label)
    (sameName : ∀ id, parents.parent? node.id = some id → otherNames.find? id = names.find? id) :
    className? otherOutline otherParents otherNames node =
      className? outline parents names node := by
  unfold className?
  rw [sameParent]
  cases parent : parents.parent? node.id with
  | none => rfl
  | some id =>
      have labels := sameNode id parent
      have named := sameName id parent
      simp only [Option.bind_some]
      cases here : outline.find? id with
      | none =>
          rw [here] at labels
          rw [Option.map_eq_none_iff.mp labels]
      | some tree =>
          rw [here] at labels
          obtain ⟨other, there, label⟩ := Option.map_eq_some_iff.mp labels
          have number : tree.label.id = id := by simpa using List.find?_some here
          have declared : declaredName otherNames tree.label = declaredName names tree.label :=
            declaredName_congr (number.symm ▸ named)
          rw [there]
          simp only [label, declared]

/-- What a function of the older outline gives is the same in the new one, with the older tables
and with new ones. -/
theorem outcome_grownFrom (further : old.GrownFrom new) (grown : old.Grown) {node : Entry}
    (inside : node.id < old.size) :
    outcome new (.ofOutline old) (.ofOutline old) read qualified node =
        outcome old (.ofOutline old) (.ofOutline old) read qualified node ∧
      outcome new (.ofOutline new) (.ofOutline new) read qualified node =
        outcome old (.ofOutline old) (.ofOutline old) read qualified node := by
  have known : ∀ id, (ParentTable.ofOutline old).parent? node.id = some id → id < old.size :=
    fun id found => ParentTable.parent?_lt grown found
  have labels := fun id found => further.label_eq grown (known id found)
  have names := fun id found => further.find?_eq grown (known id found)
  have own := further.find?_eq grown inside
  have scope : (NameTable.ofOutline new).scope? node.id =
      (NameTable.ofOutline old).scope? node.id := by
    unfold NameTable.scope?
    rw [own]
  constructor
  · exact outcome_congr rfl (className?_congr rfl labels fun _ _ => rfl) rfl
  · exact outcome_congr (declaredName_congr own)
      (className?_congr (further.parent?_eq grown inside) labels names) scope

theorem filterMap_filter_fst {α β : Type} (kept : α → Bool) (image : α → Option β) (xs : List α) :
    (xs.filterMap fun x => (image x).map fun y => (x, y)).filter (fun pair => kept pair.1) =
      (xs.filter kept).filterMap fun x => (image x).map fun y => (x, y) := by
  induction xs with
  | nil => rfl
  | cons x xs ih =>
      cases found : image x with
      | none => cases stays : kept x <;> simp [found, stays, ih]
      | some y => cases stays : kept x <;> simp [found, stays, ih]

/-- The functions of an older outline, with what they contribute in the new one, are those that
they were if every one of them contributes what it did. -/
theorem recorded_older (further : old.GrownFrom new) (grown : old.Grown) {parents : ParentTable}
    {names : NameTable}
    (same : ∀ node : Entry, node.id < old.size → outcome new parents names read qualified node =
      outcome old (.ofOutline old) (.ofOutline old) read qualified node) :
    (recorded new parents names read qualified).filter (fun pair => pair.1.id < old.size) =
      recorded old (.ofOutline old) (.ofOutline old) read qualified := by
  have older := filterMap_filter_fst (fun node : Entry => decide (node.id < old.size))
    (outcome new parents names read qualified) (new.root.postorder.map Rose.label)
  rw [recorded_eq, recorded_eq]
  refine older.trans ?_
  rw [further.postorder_eq grown]
  refine List.filterMap_congr fun node found => ?_
  rw [same node (grown.id_lt_of_mem_postorder found)]

theorem recorded_snd (outline : Outline) (parents : ParentTable) (names : NameTable) :
    (recorded outline parents names read qualified).map Prod.snd =
      outcomes outline parents names read qualified :=
  List.map_snd_zip (Nat.le_of_eq contributes_outcomes.length_eq.symm)

/-- Tables that were made before an outline grew on, without imports, stay right for the nodes
that they were made for: such a node has the parent, the name and the scope in them that it has in
tables of the new outline. So an extraction with the older tables holds for these nodes, in the
same order, what one with new tables holds, and what one of the older outline held. -/
theorem ofTables_grownFrom {old new : Outline} (grown : old.Grown) (further : old.GrownFrom new) :
    (∀ id < old.size,
      (ParentTable.ofOutline new).parent? id = (ParentTable.ofOutline old).parent? id ∧
      (NameTable.ofOutline new).name? id = (NameTable.ofOutline old).name? id ∧
      (NameTable.ofOutline new).scope? id = (NameTable.ofOutline old).scope? id) ∧
    ∀ (read : CommentReader) (qualified : Bool),
      let older := recorded new (.ofOutline old) (.ofOutline old) read qualified
      let newer := recorded new (.ofOutline new) (.ofOutline new) read qualified
      ofTables new (.ofOutline old) (.ofOutline old) read qualified =
          ⟨succeeded (older.map Prod.snd), failed (older.map Prod.snd),
            (NameTable.ofOutline old).warnings⟩ ∧
        ofTables new (.ofOutline new) (.ofOutline new) read qualified =
          ⟨succeeded (newer.map Prod.snd), failed (newer.map Prod.snd),
            (NameTable.ofOutline new).warnings⟩ ∧
        older.filter (fun pair => pair.1.id < old.size) =
          newer.filter (fun pair => pair.1.id < old.size) ∧
        newer.filter (fun pair => pair.1.id < old.size) =
          recorded old (.ofOutline old) (.ofOutline old) read qualified := by
  refine ⟨?_, ?_⟩
  · intro id inside
    have named := further.find?_eq grown inside
    refine ⟨further.parent?_eq grown inside, ?_, ?_⟩
    · rw [NameTable.name?, named, NameTable.name?]
    · rw [NameTable.scope?, named, NameTable.scope?]
  · intro read qualified
    have withOlder :
        (recorded new (.ofOutline old) (.ofOutline old) read qualified).filter
            (fun pair => pair.1.id < old.size) =
          recorded old (.ofOutline old) (.ofOutline old) read qualified :=
      recorded_older further grown fun node inside => (outcome_grownFrom further grown inside).1
    have withNewer :
        (recorded new (.ofOutline new) (.ofOutline new) read qualified).filter
            (fun pair => pair.1.id < old.size) =
          recorded old (.ofOutline old) (.ofOutline old) read qualified :=
      recorded_older further grown fun node inside => (outcome_grownFrom further grown inside).2
    refine ⟨?_, ?_, withOlder.trans withNewer.symm, withNewer⟩
    · rw [recorded_snd, ofTables_eq]
    · rw [recorded_snd, ofTables_eq]

def olderOutline : Outline :=
  (((Outline.empty.push 0 ⟨.space (some "App".toList), 2, none⟩).push 1
    ⟨.imports [⟨"B".toList, "Lib\\Base".toList⟩], 3, none⟩).push 1
    ⟨.classLike .plain "Foo".toList (some "B".toList), 4, none⟩).push 3
    ⟨.function .method "run".toList, 6, some "/** @return self|B */".toList⟩

def newerOutline : Outline :=
  ((olderOutline.push 2 ⟨.block, 3, none⟩).push 4 ⟨.space (some "Other".toList), 7, none⟩).push 6
    ⟨.function .free "inner".toList, 9, some "/** @return B */".toList⟩

theorem olderOutline_grown : olderOutline.Grown :=
  .push 3 _ (.push 1 _ (.push 1 _ (.push 0 _ .empty (by decide)) (by decide)) (by decide))
    (by decide)

theorem newerOutline_grownFrom : olderOutline.GrownFrom newerOutline :=
  .push 6 _ (.push 4 _ (.push 2 _ .refl (by decide) rfl) (by decide) rfl) (by decide) rfl

theorem ofTables_newerOutline :
    olderOutline.Grown ∧ olderOutline.GrownFrom newerOutline ∧
      (NameTable.ofOutline newerOutline).scope? 4 = (NameTable.ofOutline olderOutline).scope? 4 ∧
      (recorded newerOutline (.ofOutline newerOutline) (.ofOutline newerOutline) Docblock.parse
          true).filter (fun pair => pair.1.id < 5) =
        [(⟨⟨.function .method "run".toList, 6, some "/** @return self|B */".toList⟩, 4⟩,
          .ok ⟨"App\\Foo->run".toList, [],
            TypeSet.ofList ["App\\Foo".toList, "Lib\\Base".toList]⟩)] := by
  obtain ⟨tables, extractions⟩ := ofTables_grownFrom olderOutline_grown newerOutline_grownFrom
  obtain ⟨-, -, -, recorded⟩ := extractions Docblock.parse true
  refine ⟨olderOutline_grown, newerOutline_grownFrom, (tables 4 (by decide)).2.2, ?_⟩
  refine Eq.trans recorded ?_
  decide +kernel

end DocSig.Extraction
