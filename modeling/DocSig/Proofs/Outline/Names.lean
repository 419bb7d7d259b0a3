import DocSig.Proofs.Outline.Scoping

/-!
The table of names holds, for each node of a grown outline, what its lexical scope gives.

The whole walk notes what each place gives by itself (`namings_ofOutline`), and since numbers are
given once, a number finds what was noted at its own node (`find?_place`).
-/

set_option autoImplicit false

namespace DocSig

open Lexical Outline

theorem Outline.Grown.root_program {outline : Outline} (grown : outline.Grown) :
    ∃ children, outline.root = .branch ⟨program, 0⟩ children := by
  induction grown with
  | empty => exact ⟨[], rfl⟩
  | @push outline parent node _ _ ih =>
      obtain ⟨children, root⟩ := ih
      rw [Outline.push, root, graft]
      exact ⟨_, rfl⟩

theorem Outline.Grown.labels_nodup {outline : Outline} (grown : outline.Grown) :
    outline.root.labels.Nodup := List.Nodup.of_map Entry.id grown.numbers_nodup

/-- The walk notes at each place what looking around from it gives. -/
theorem namings_ofOutline {outline : Outline} (grown : outline.Grown)
    (bare : LeavesBare outline.root.preorder) :
    (NameTable.ofOutline outline).namings = namingsFrom [] outline.places := by
  have once := grown.labels_nodup
  obtain ⟨children, root⟩ := grown.root_program
  unfold NameTable.ofOutline places
  rw [root, Rose.preorder] at bare
  rw [root, Rose.labels_branch] at once
  rw [root]
  -- the invariant begins below the program, which is where imports outside of all else belong
  have stands : Stands [⟨⟨program, 0⟩, []⟩] [⟨program, 0⟩] := by
    refine ⟨by simp [seen], ?_, by simp, ?_⟩
    · intro place found entry inside
      rw [List.mem_singleton.mp found] at inside
      cases inside
    · intro place found inside
      rw [List.mem_singleton.mp found] at inside
      exact absurd rfl inside
  have outermost : scopeAt [⟨⟨program, 0⟩, []⟩] [⟨program, 0⟩] = Scope.outermost := rfl
  have walked := walkAll_eq children stands (by simpa [seen] using once)
    (fun tree found => bare tree (List.mem_cons_of_mem _ found))
  rw [outermost] at walked
  have whole : NameTable.walk Scope.outermost (.branch ⟨program, 0⟩ children) =
      NameTable.walkAll Scope.outermost children := by
    simp [NameTable.walk, program]
  rw [whole, walked]
  rfl

theorem id_of_namingAt {scope : Scope} {entry : Entry} {naming : Naming}
    (noted : namingAt scope entry = some naming) : naming.id = entry.id := by
  unfold namingAt at noted
  split at noted
  · cases noted
  · cases noted
  · cases noted
  · cases noted
    rfl
  · cases noted
    rfl
  · cases noted
    rfl
  · cases noted
    rfl
  · cases noted
    unfold NameTable.ofReference
    split <;> rfl

theorem id_of_mem_namingsFrom {before places : List Place} {naming : Naming}
    (found : naming ∈ namingsFrom before places) :
    ∃ place ∈ places, naming.id = place.entry.id := by
  induction places generalizing before with
  | nil => cases found
  | cons place places ih =>
      rcases List.mem_append.mp found with here | later
      · exact ⟨place, List.mem_cons_self, id_of_namingAt (Option.mem_toList.mp here)⟩
      · obtain ⟨other, inside, same⟩ := ih later
        exact ⟨other, List.mem_cons_of_mem place inside, same⟩

/-- A number finds what was noted at its own node. -/
theorem find?_place {outline : Outline} (grown : outline.Grown)
    (bare : LeavesBare outline.root.preorder) {before after : List Place} {place : Place}
    (split : outline.places = before ++ place :: after) :
    (NameTable.ofOutline outline).find? place.entry.id =
      namingAt (scopeAt before place.above) place.entry := by
  have numbers : (outline.places.map fun place => place.entry.id).Nodup := by
    have nodup := grown.numbers_nodup
    rwa [numbers, ← places_entries, List.map_map] at nodup
  rw [split, List.map_append, List.map_cons] at numbers
  -- numbers are given once, so no place before this one or behind it has its number
  have earlier : ∀ other ∈ before, other.entry.id ≠ place.entry.id := by
    intro other found same
    exact List.disjoint_of_nodup_append numbers (List.mem_map_of_mem found)
      (same ▸ List.mem_cons_self)
  have later : ∀ other ∈ after, other.entry.id ≠ place.entry.id := by
    intro other found same
    have apart := (List.nodup_cons.mp (List.Nodup.of_append_right numbers)).1
    exact apart (same ▸ List.mem_map_of_mem found)
  have without : ∀ {start places : List Place},
      (∀ other ∈ places, other.entry.id ≠ place.entry.id) →
        (namingsFrom start places).find? (fun naming => naming.id == place.entry.id) = none := by
    intro start places apart
    rw [List.find?_eq_none]
    intro naming found same
    obtain ⟨other, inside, id⟩ := id_of_mem_namingsFrom found
    exact apart other inside (by simpa [id] using same)
  rw [NameTable.find?, namings_ofOutline grown bare, split, namingsFrom_append, List.nil_append,
    namingsFrom, List.find?_append, List.find?_append, without earlier, without later]
  cases noted : namingAt (scopeAt before place.above) place.entry with
  | none => rfl
  | some naming =>
      have id := id_of_namingAt noted
      simp [id]

/-- A name that is declared below `above`, with the namespace before it. -/
def declaredIn (above : List Entry) (name : Text) : Text :=
  match spaceOf above with
  | some space => space ++ '\\' :: name
  | none => name

/-- At every node of a grown outline, the table has what the lexical scope of the node gives: the
namespace and the class around it and the imports that are seen from it decide the scope of a
function and all names. -/
theorem ofOutline_lexical {outline : Outline} (grown : outline.Grown)
    (bare : LeavesBare outline.root.preorder) {before after : List Place} {place : Place}
    (split : outline.places = before ++ place :: after) :
    let names := NameTable.ofOutline outline
    let id := place.entry.id
    (∀ kind name, place.entry.kind = .function kind name →
      (∃ scope, names.scope? id = some scope ∧ scope.space = spaceOf place.above ∧
        scope.enclosing = (if kind = .free then none else classOf place.above before) ∧
        ∀ short, scope.imports.lookup short =
          ((importsOf before place.above).filter fun item => item.short.lower == short).getLast?.map
            Import.target) ∧
      names.name? id = some (if kind = .free then declaredIn place.above name else name)) ∧
    (∀ kind name parent, place.entry.kind = .classLike kind name parent →
      names.scope? id = none ∧ names.name? id =
        some (if kind = .anonymous then name else declaredIn place.above name)) ∧
    (∀ name, place.entry.kind = .space name → names.scope? id = none ∧ names.name? id = name) ∧
    (∀ name, place.entry.kind = .reference name →
      names.scope? id = none ∧
        names.name? id = some ((scopeAt before place.above).resolve name).name) ∧
    ((place.entry.kind = .program ∨ place.entry.kind = .block ∨
        ∃ list, place.entry.kind = .imports list) →
      names.scope? id = none ∧ names.name? id = none) := by
  have noted := find?_place grown bare split
  have imported : ∀ short, (importPairs (importsOf before place.above)).lookup short =
      ((importsOf before place.above).filter fun item => item.short.lower == short).getLast?.map
        Import.target := lookup_importPairs (importsOf before place.above)
  refine ⟨?_, ?_, ?_, ?_, ?_⟩
  · intro kind name function
    cases kind with
    | free =>
        simp only [namingAt, function] at noted
        refine ⟨⟨(scopeAt before place.above).inFunction, ?_, rfl, rfl, imported⟩, ?_⟩
        · simp [NameTable.scope?, noted]
        · simp only [NameTable.name?, noted, ↓reduceIte]
          rfl
    | method =>
        simp only [namingAt, function] at noted
        refine ⟨⟨scopeAt before place.above, ?_, rfl, rfl, imported⟩, ?_⟩
        · simp [NameTable.scope?, noted]
        · simp [NameTable.name?, noted]
    | staticMethod =>
        simp only [namingAt, function] at noted
        refine ⟨⟨scopeAt before place.above, ?_, rfl, rfl, imported⟩, ?_⟩
        · simp [NameTable.scope?, noted]
        · simp [NameTable.name?, noted]
  · intro kind name parent classLike
    simp only [namingAt, classLike] at noted
    simp only [NameTable.scope?, NameTable.name?, noted]
    exact ⟨rfl, rfl⟩
  · intro name space
    simp only [namingAt, space] at noted
    simp [NameTable.scope?, NameTable.name?, noted]
  · intro name reference
    simp only [namingAt, reference] at noted
    simp only [NameTable.scope?, NameTable.name?, noted, Option.bind_some, NameTable.ofReference]
    split
    · next unresolved => simp [unresolved, Resolution.name]
    · next resolved => simp [resolved, Resolution.name]
    · next builtin => simp [builtin, Resolution.name]
  · rintro (program | block | ⟨list, imports⟩)
    · simp only [namingAt, program] at noted
      simp [NameTable.scope?, NameTable.name?, noted]
    · simp only [namingAt, block] at noted
      simp [NameTable.scope?, NameTable.name?, noted]
    · simp only [namingAt, imports] at noted
      simp [NameTable.scope?, NameTable.name?, noted]

/-- A class with a parent that is imported, and a method that imports another of that name. -/
def nestedImports : Outline :=
  ((((((Outline.empty.push 0 ⟨.space (some "App".toList), 2, none⟩).push 1
    ⟨.imports [⟨"B".toList, "Lib\\Base".toList⟩], 3, none⟩).push 1
    ⟨.classLike .plain "Foo".toList (some "B".toList), 4, none⟩).push 3
    ⟨.function .method "first".toList, 5, none⟩).push 4
    ⟨.imports [⟨"b".toList, "Other".toList⟩], 6, none⟩).push 3
    ⟨.function .method "second".toList, 7, none⟩)

theorem nestedImports_grown : nestedImports.Grown :=
  .push 3 _ (.push 4 _ (.push 3 _ (.push 1 _ (.push 1 _ (.push 0 _ .empty (by decide)) (by decide))
    (by decide)) (by decide)) (by decide)) (by decide)

theorem ofOutline_nestedImports :
    nestedImports.Grown ∧ LeavesBare nestedImports.root.preorder ∧
      ∃ scope, (NameTable.ofOutline nestedImports).scope? 6 = some scope ∧
        scope.space = some "App".toList ∧
        scope.enclosing = some ⟨"App\\Foo".toList, some "Lib\\Base".toList⟩ ∧
        scope.imports.lookup "b".toList = some "Other".toList ∧
        (NameTable.ofOutline nestedImports).name? 6 = some "second".toList := by
  have bare : LeavesBare nestedImports.root.preorder := by
    have all : ∀ tree ∈ nestedImports.root.preorder,
        isLeaf tree.label.kind = true → tree.children.length = 0 := by decide
    exact fun tree found leaf => List.length_eq_zero_iff.mp (all tree found leaf)
  have split : nestedImports.places = nestedImports.places.take 6 ++
      nestedImports.places[6] :: nestedImports.places.drop 7 := by
    rfl
  obtain ⟨⟨scope, found, space, enclosing, imports⟩, name⟩ :=
    (ofOutline_lexical nestedImports_grown bare split).1 .method "second".toList rfl
  refine ⟨nestedImports_grown, bare, scope, found, ?_, ?_, ?_, name⟩
  · rw [space]
    decide
  · rw [enclosing]
    decide +kernel
  · rw [imports]
    decide +kernel

end DocSig
