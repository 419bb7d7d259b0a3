import DocSig.Proofs.Extraction.Outcomes
import DocSig.Proofs.Outline.Comments

/-!
No outcome depends on another function's comment.

What a documented function contributes is decided by the node, its own name, the name of the class
it is a member of, and its scope (`contributes_congr`). So a comment that cannot be used takes
away the one outcome and leaves all others as they were, in their order.
-/

set_option autoImplicit false

namespace DocSig.Extraction

variable {outline : Outline} {parents : ParentTable} {names : NameTable} {read : CommentReader}
variable {qualified : Bool}

theorem signatureName_eq (node : Entry) (kind : FunctionKind) :
    signatureName outline parents names node kind =
      if kind = .free then declaredName names node
      else
        match className? outline parents names node with
        | some name => name ++ separator kind ++ node.kind.name?.getD []
        | none => declaredName names node := by
  unfold signatureName className?
  split
  · rfl
  · cases (parents.parent? node.id).bind outline.find? with
    | none => rfl
    | some parent =>
        dsimp only
        split
        · rfl
        · rfl

theorem comment_of_usable {node : Entry} {comment : Text}
    (usable : usableComment node = some comment) : node.comment = some comment :=
  (Option.filter_eq_some_iff.mp usable).1

/-- What a function contributes depends on no more than its node, its own name, the name of its
class, its scope, and what its own comment reads as. -/
theorem contributes_congr {otherOutline : Outline} {otherParents : ParentTable}
    {otherNames : NameTable} {otherRead : CommentReader} {node : Entry}
    {given : Except Diagnostic Signature}
    (reads : node.comment.map otherRead = node.comment.map read)
    (own : declaredName otherNames node = declaredName names node)
    (member : className? otherOutline otherParents otherNames node =
      className? outline parents names node)
    (scope : otherNames.scope? node.id = names.scope? node.id)
    (contributes : Contributes outline parents names read qualified node given) :
    Contributes otherOutline otherParents otherNames otherRead qualified node given := by
  have sameName : ∀ kind, signatureName outline parents names node kind =
      signatureName otherOutline otherParents otherNames node kind := by
    intro kind
    rw [signatureName_eq, signatureName_eq, own, member]
  have sameReading : ∀ comment, usableComment node = some comment →
      read comment = otherRead comment := by
    intro comment usable
    have given := comment_of_usable usable
    simpa [given] using reads.symm
  cases contributes with
  | signature function usable readable fits =>
      rw [← scope]
      rw [sameReading _ usable] at readable
      rw [sameName] at fits
      exact .signature function usable readable fits
  | diagnostic function usable fails =>
      rw [sameName]
      rw [sameReading _ usable, sameName] at fails
      exact .diagnostic function usable fails

theorem outcome_congr {otherOutline : Outline} {otherParents : ParentTable}
    {otherNames : NameTable} {node : Entry}
    (own : declaredName otherNames node = declaredName names node)
    (member : className? otherOutline otherParents otherNames node =
      className? outline parents names node)
    (scope : otherNames.scope? node.id = names.scope? node.id) :
    outcome otherOutline otherParents otherNames read qualified node =
      outcome outline parents names read qualified node := by
  refine Option.ext fun given => ?_
  rw [outcome_eq_some_iff, outcome_eq_some_iff]
  exact ⟨contributes_congr rfl own.symm member.symm scope.symm,
    contributes_congr rfl own member scope⟩

theorem className?_withComment (id : Nat) (comment : Option Text) (node : Entry) :
    className? (outline.withComment id comment) parents names node =
      className? outline parents names node := by
  have sameName : ∀ entry, declaredName names (Outline.commentAt id comment entry) =
      declaredName names entry := by
    intro entry
    simp [declaredName]
  have sameParent : (parents.parent? node.id).bind (outline.withComment id comment).find? =
      ((parents.parent? node.id).bind outline.find?).map
        (Rose.relabel (Outline.commentAt id comment)) := by
    cases parents.parent? node.id with
    | none => rfl
    | some parent => exact outline.find?_withComment id comment parent
  unfold className?
  rw [sameParent]
  cases (parents.parent? node.id).bind outline.find? with
  | none => rfl
  | some parent => simp [sameName]

theorem outcome_withComment (id : Nat) (comment : Option Text) (node : Entry) :
    outcome (outline.withComment id comment) parents names read qualified node =
      outcome outline parents names read qualified node :=
  outcome_congr rfl (className?_withComment id comment node) rfl

def recorded (outline : Outline) (parents : ParentTable) (names : NameTable)
    (read : CommentReader) (qualified : Bool) : List (Entry × Except Diagnostic Signature) :=
  (documented outline).zip (outcomes outline parents names read qualified)

theorem zip_filterMap {α β : Type} {image : α → Option β} {kept : α → Bool}
    (agree : ∀ x, (image x).isSome = kept x) (xs : List α) :
    (xs.filter kept).zip (xs.filterMap image) =
      xs.filterMap fun x => (image x).map fun y => (x, y) := by
  induction xs with
  | nil => rfl
  | cons x xs ih =>
      cases found : image x with
      | none =>
          have dropped : kept x = false := by rw [← agree, found]; rfl
          simp [found, dropped, ih]
      | some y =>
          have stays : kept x = true := by rw [← agree, found]; rfl
          simp [found, stays, ih]

theorem recorded_eq : recorded outline parents names read qualified =
    (outline.root.postorder.map Rose.label).filterMap fun node =>
      (outcome outline parents names read qualified node).map fun given => (node, given) :=
  zip_filterMap outcome_isSome _

/-- Another comment at one node leaves what the other nodes contribute as it was. -/
theorem recorded_withComment (id : Nat) (comment : Option Text) :
    (recorded (outline.withComment id comment) parents names read qualified).filter
        (fun pair => pair.1.id != id) =
      (recorded outline parents names read qualified).filter (fun pair => pair.1.id != id) := by
  rw [recorded_eq, recorded_eq]
  have nodes : (outline.withComment id comment).root.postorder.map Rose.label =
      (outline.root.postorder.map Rose.label).map (Outline.commentAt id comment) := by
    simp [Outline.withComment, Rose.postorder_relabel]
  rw [nodes, List.filterMap_map, List.filter_filterMap, List.filter_filterMap]
  congr 1
  funext entry
  simp only [Function.comp_apply, outcome_withComment]
  by_cases here : entry.id = id
  · have gone : ∀ (given : Option (Except Diagnostic Signature)) (node : Entry), node.id = id →
        (given.map fun given => (node, given)).filter (fun pair => pair.1.id != id) = none := by
      intro given node same
      cases given with
      | none => rfl
      | some given => simp [Option.filter, same]
    rw [gone _ entry here, gone _ (Outline.commentAt id comment entry) (by simpa using here)]
  · rw [Outline.commentAt_other comment here]

/-- An extraction of a grown outline comes to its end after two steps for each node and meets each
node once. It holds exactly what the documented functions contribute, those within a function
before it, and neither the tables nor the comments of other nodes have a part in it. -/
theorem ofTables_grown {outline : Outline} (grown : outline.Grown) (parents : ParentTable)
    (names : NameTable) (read : CommentReader) (qualified : Bool) :
    let found := ofTables outline parents names read qualified
    Rose.Walk.steps (visit outline parents names read qualified) (2 * outline.size)
        (.start outline.root ⟨[], [], names.warnings⟩) = some ⟨[], found⟩ ∧
      (outline.root.postorder.map fun tree => tree.label.id).Perm (List.range outline.size) ∧
      ∃ given, List.Forall₂ (Contributes outline parents names read qualified)
          (documented outline) given ∧
        found = ⟨succeeded given, failed given, names.warnings⟩ ∧
        (∀ (otherOutline : Outline) (otherParents : ParentTable) (otherNames : NameTable)
            (otherRead : CommentReader) (node : Entry) (outcome : Except Diagnostic Signature),
          node.comment.map otherRead = node.comment.map read →
          declaredName otherNames node = declaredName names node →
          className? otherOutline otherParents otherNames node =
            className? outline parents names node →
          otherNames.scope? node.id = names.scope? node.id →
          (Contributes otherOutline otherParents otherNames otherRead qualified node outcome ↔
            Contributes outline parents names read qualified node outcome)) ∧
        ∀ (id : Nat) (comment : Option Text), ∃ others,
          List.Forall₂ (Contributes (outline.withComment id comment) parents names read qualified)
            (documented (outline.withComment id comment)) others ∧
          ofTables (outline.withComment id comment) parents names read qualified =
            ⟨succeeded others, failed others, names.warnings⟩ ∧
          ((documented (outline.withComment id comment)).zip others).filter
              (fun pair => pair.1.id != id) =
            ((documented outline).zip given).filter (fun pair => pair.1.id != id) := by
  intro found
  have ended := Rose.Walk.steps_work (visit outline parents names read qualified)
    (.start outline.root ⟨[], [], names.warnings⟩)
  rw [Rose.Walk.work_start, grown.count] at ended
  have once : (outline.root.postorder.map fun tree => tree.label.id).Perm
      (List.range outline.size) := by
    have numbers := ((Rose.postorder_perm outline.root).map Rose.label).map Entry.id
    rw [List.map_map] at numbers
    exact numbers.trans grown.numbers_perm
  refine ⟨?_, once, outcomes outline parents names read qualified, contributes_outcomes,
    ofTables_eq outline parents names read qualified, ?_, ?_⟩
  -- two steps for each node
  · rw [ended, Rose.Walk.run_start]
    simp only [found, ofTables, Rose.Walk.run_start]
  -- what one contribution depends on
  · intro otherOutline otherParents otherNames otherRead node outcome reads own member scope
    exact ⟨contributes_congr reads.symm own.symm member.symm scope.symm,
      contributes_congr reads own member scope⟩
  -- another comment at one node
  · intro id comment
    exact ⟨outcomes (outline.withComment id comment) parents names read qualified,
      contributes_outcomes, ofTables_eq _ parents names read qualified,
      recorded_withComment id comment⟩

def nestedOutline : Outline :=
  (Outline.empty.push 0 ⟨.function .free "outer".toList, 2, some "/** @return".toList⟩).push 1
    ⟨.function .free "inner".toList, 4, some "/** @return int */".toList⟩

theorem nestedOutline_grown : nestedOutline.Grown :=
  .push 1 _ (.push 0 _ .empty (by decide)) (by decide)

theorem ofTables_nestedOutline :
    nestedOutline.Grown ∧ ofTables nestedOutline ⟨[]⟩ ⟨[]⟩ Docblock.parse false =
      ⟨[⟨"inner".toList, [], TypeSet.ofList ["int".toList]⟩],
        [⟨"outer".toList, 2, .unterminated⟩], []⟩ := by
  obtain ⟨-, -, given, contributes, found, -⟩ :=
    ofTables_grown nestedOutline_grown ⟨[]⟩ ⟨[]⟩ Docblock.parse false
  refine ⟨nestedOutline_grown, ?_⟩
  have nodes : documented nestedOutline =
      [⟨⟨.function .free "inner".toList, 4, some "/** @return int */".toList⟩, 2⟩,
        ⟨⟨.function .free "outer".toList, 2, some "/** @return".toList⟩, 1⟩] := by
    decide +kernel
  rw [nodes] at contributes
  obtain _ | ⟨inner, rest⟩ := contributes
  obtain _ | ⟨outer, rest⟩ := rest
  cases rest
  have first := outcome_eq_some_iff.mpr inner
  have second := outcome_eq_some_iff.mpr outer
  rw [found]
  have firstGiven : outcome nestedOutline ⟨[]⟩ ⟨[]⟩ Docblock.parse false
      ⟨⟨.function .free "inner".toList, 4, some "/** @return int */".toList⟩, 2⟩ =
        some (.ok ⟨"inner".toList, [], TypeSet.ofList ["int".toList]⟩) := by
    decide +kernel
  have secondGiven : outcome nestedOutline ⟨[]⟩ ⟨[]⟩ Docblock.parse false
      ⟨⟨.function .free "outer".toList, 2, some "/** @return".toList⟩, 1⟩ =
        some (.error ⟨"outer".toList, 2, .unterminated⟩) := by
    decide +kernel
  rw [firstGiven] at first
  rw [secondGiven] at second
  cases first
  cases second
  rfl

end DocSig.Extraction
