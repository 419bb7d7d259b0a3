import DocSig.Proofs.Extraction.Qualified
import DocSig.Proofs.Outline.Steps

/-!
Class names in the declaration of a function and in its comment mean the same.

A reference below a function is resolved by the walk that names the outline, with the scope that
is then in force; a name in the comment is resolved later, with the scope that the walk has noted
at the function. What keeps the two together is that the scope noted at a function is the one that
the walk goes on with below it, and that only an import changes it from there.
-/

set_option autoImplicit false

namespace DocSig

open Lexical Outline

namespace NameTable

theorem name_ofReference (scope : Scope) (id line : Nat) (text : Text) :
    (ofReference scope id line text).name = some (scope.resolve text).name := by
  unfold ofReference
  split
  · next unresolved => rw [unresolved]; rfl
  · next resolved => rw [resolved]; rfl
  · next builtin => rw [builtin]; rfl

theorem id_ofReference (scope : Scope) (id line : Nat) (text : Text) :
    (ofReference scope id line text).id = id := by
  unfold ofReference
  split <;> rfl

/-- The scope that is noted at a function is the one that its children get. -/
theorem namingAt_function (scope : Scope) {function : Entry} {kind : FunctionKind} {name : Text}
    (declares : function.kind = .function kind name) :
    ∃ noted, namingAt scope function = some noted ∧ noted.id = function.id ∧
      noted.scope = some (entered scope function) := by
  unfold namingAt entered
  rw [declares]
  cases kind with
  | free => exact ⟨_, rfl, rfl, rfl⟩
  | method => exact ⟨_, rfl, rfl, rfl⟩
  | staticMethod => exact ⟨_, rfl, rfl, rfl⟩

/-- A reference among the children of a node is resolved with the scope that the children get, if
nothing is imported before it. -/
theorem ofReference_mem_walk (scope : Scope) {entry reference : Entry} {text : Text}
    {earlier later below : List (Rose Entry)} (inner : isLeaf entry.kind = false)
    (refers : reference.kind = .reference text)
    (nothing : ∀ entry ∈ Rose.labelsAll earlier, entry.kind.importList = []) :
    ofReference (entered scope entry) reference.id reference.line text ∈
      (walk scope (.branch entry (earlier ++ .branch reference below :: later))).2 := by
  have here : (walk (entered scope entry) (.branch reference below)).2 =
      [ofReference (entered scope entry) reference.id reference.line text] := by
    unfold walk
    rw [refers]
  rw [walk_branch, inner, walkAll_append, walkAll_scope earlier _ nothing, walkAll]
  simp [here]

end NameTable

namespace Extraction

open NameTable

/-- A class name that a function's declaration refers to and one in its comment are told alike: if
nothing is imported within the function before the reference, the table names the reference by
what its text means in the scope that it has for the function. So a class name in the comment
gets, when names are told in full, exactly the name that the reference to it got. -/
theorem name?_reference {outline : Outline} (grown : outline.Grown)
    (bare : LeavesBare outline.root.preorder) {function reference : Entry} {kind : FunctionKind}
    {name text : Text} {earlier later below : List (Rose Entry)}
    (declares : function.kind = .function kind name) (refers : reference.kind = .reference text)
    (within : .branch function (earlier ++ .branch reference below :: later) ∈
      outline.root.preorder)
    (nothing : ∀ entry ∈ Rose.labelsAll earlier, entry.kind.importList = []) :
    let names := NameTable.ofOutline outline
    ∃ scope, names.scope? function.id = some scope ∧
      names.name? reference.id = some (scope.resolve text).name ∧
      (isClassName text = true →
        names.name? reference.id = some (qualifyType scope text) ∧
        ∀ (parents : ParentTable) (read : CommentReader) (plain : Signature),
          Contributes outline parents names read false function (.ok plain) →
          Contributes outline parents names read true function
            (.ok (plain.mapTypes (qualifyType scope)))) := by
  intro names
  obtain ⟨outer, noted⟩ := namings_of_mem_preorder outline.root Scope.outermost bare _ within
  have inner : isLeaf function.kind = false := by rw [declares]; rfl
  obtain ⟨naming, atFunction, id, inForce⟩ := namingAt_function outer declares
  have function_noted : naming ∈ names.namings := noted (by
    rw [walk_branch, inner, atFunction]
    exact List.mem_cons_self)
  have reference_noted := noted (ofReference_mem_walk outer inner refers nothing)
  have scope : names.scope? function.id = some (entered outer function) := by
    rw [NameTable.scope?, ← id, find?_of_mem grown function_noted]
    exact inForce
  have named : names.name? reference.id = some ((entered outer function).resolve text).name := by
    have found := find?_of_mem grown reference_noted
    rw [id_ofReference] at found
    rw [NameTable.name?, found]
    exact name_ofReference _ _ _ _
  refine ⟨entered outer function, scope, named, fun className => ⟨?_, ?_⟩⟩
  · rw [qualifyType_of_isClassName _ className]
    exact named
  · intro parents read plain contributes
    have full := contributes_told contributes true
    rw [scope] at full
    exact full

def hintedMethod : Node := ⟨.function .method "run".toList, 6, some "/** @return b|int */".toList⟩

/-- The method in a class whose file has imported the name; behind its hints the method imports
another class by it. -/
def hintedOutline : Outline :=
  ((((((Outline.empty.push 0 ⟨.space (some "App".toList), 2, none⟩).push 1
    ⟨.imports [⟨"B".toList, "Lib\\Base".toList⟩], 3, none⟩).push 1
    ⟨.classLike .plain "Foo".toList (some "B".toList), 4, none⟩).push 3 hintedMethod).push 4
    ⟨.reference "int".toList, 6, none⟩).push 4 ⟨.reference "b".toList, 6, none⟩).push 4
    ⟨.imports [⟨"B".toList, "Other".toList⟩], 7, none⟩

theorem hintedOutline_grown : hintedOutline.Grown :=
  .push 4 _ (.push 4 _ (.push 4 _ (.push 3 _ (.push 1 _ (.push 1 _ (.push 0 _ .empty (by decide))
    (by decide)) (by decide)) (by decide)) (by decide)) (by decide)) (by decide)

theorem name?_hintedOutline :
    hintedOutline.Grown ∧ LeavesBare hintedOutline.root.preorder ∧
      (NameTable.ofOutline hintedOutline).name? 6 = some "Lib\\Base".toList ∧
      Contributes hintedOutline (.ofOutline hintedOutline) (.ofOutline hintedOutline) Docblock.parse
        true ⟨hintedMethod, 4⟩
        (.ok ⟨"App\\Foo->run".toList, [],
          TypeSet.ofList ["Lib\\Base".toList, "int".toList]⟩) := by
  have bare : LeavesBare hintedOutline.root.preorder := by decide
  have within : .branch ⟨hintedMethod, 4⟩
      ([.branch ⟨⟨.reference "int".toList, 6, none⟩, 5⟩ []] ++
        .branch ⟨⟨.reference "b".toList, 6, none⟩, 6⟩ [] ::
          [.branch ⟨⟨.imports [⟨"B".toList, "Other".toList⟩], 7, none⟩, 7⟩ []]) ∈
      hintedOutline.root.preorder := List.mem_of_getElem? (i := 4) rfl
  obtain ⟨scope, inForce, -, alike⟩ :=
    name?_reference hintedOutline_grown bare rfl rfl within (by decide)
  obtain ⟨named, rewritten⟩ := alike (by decide)
  have noted : (NameTable.ofOutline hintedOutline).scope? 4 = some ⟨some "App".toList,
      [("b".toList, "Lib\\Base".toList)],
      some ⟨"App\\Foo".toList, some "Lib\\Base".toList⟩⟩ := by decide +kernel
  obtain rfl := Option.some.inj (noted.symm.trans inForce)
  have plain : Contributes hintedOutline (.ofOutline hintedOutline) (.ofOutline hintedOutline)
      Docblock.parse false ⟨hintedMethod, 4⟩
      (.ok ⟨"App\\Foo->run".toList, [], TypeSet.ofList ["b".toList, "int".toList]⟩) :=
    outcome_eq_some_iff.mp (by decide +kernel)
  refine ⟨hintedOutline_grown, bare, named.trans (by decide +kernel), ?_⟩
  have full := rewritten (.ofOutline hintedOutline) Docblock.parse _ plain
  have mapped : (⟨"App\\Foo->run".toList, [], TypeSet.ofList ["b".toList, "int".toList]⟩ :
      Signature).mapTypes (qualifyType ⟨some "App".toList, [("b".toList, "Lib\\Base".toList)],
        some ⟨"App\\Foo".toList, some "Lib\\Base".toList⟩⟩) =
      ⟨"App\\Foo->run".toList, [], TypeSet.ofList ["Lib\\Base".toList, "int".toList]⟩ := by
    decide +kernel
  rwa [mapped] at full

end Extraction

end DocSig
