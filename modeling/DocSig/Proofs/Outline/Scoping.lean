import DocSig.Proofs.Outline.Places

/-!
The walk that names an outline hands on the lexical scope.

The invariant is that the scope in force is the one that looking around gives (`scopeAt`). A node
that opens no scope is seen through (`scopeAt_through`); one that opens a scope keeps what is
imported within it (`scopeAt_closed`).
-/

set_option autoImplicit false

namespace DocSig.Lexical

open Outline

def seen (places : List Place) : List Entry := places.map Place.entry

@[simp] theorem seen_append (before more : List Place) :
    seen (before ++ more) = seen before ++ seen more := by
  simp [seen]

/-- What is known where the walk stands: the nodes around it are behind it, as are those around
every node behind it, and all have one outermost node. -/
structure Stands (before : List Place) (above : List Entry) : Prop where
  around : ∀ entry ∈ above, entry ∈ seen before
  closed : ∀ place ∈ before, ∀ entry ∈ place.above, entry ∈ seen before
  nonempty : above ≠ []
  outermost : ∀ place ∈ before, place.above ≠ [] → place.above.getLast? = above.getLast?

theorem Stands.enter {before : List Place} {above : List Entry} (stands : Stands before above)
    (entry : Entry) : Stands (before ++ [⟨entry, above⟩]) (entry :: above) := by
  have last : (entry :: above).getLast? = above.getLast? :=
    List.getLast?_cons_of_ne_nil stands.nonempty
  refine ⟨?_, ?_, by simp, ?_⟩
  · intro other found
    rw [seen_append]
    rcases List.mem_cons.mp found with rfl | outside
    · simp [seen]
    · exact List.mem_append_left _ (stands.around other outside)
  · intro place found other inside
    rw [seen_append]
    refine List.mem_append_left _ ?_
    rcases List.mem_append.mp found with earlier | here
    · exact stands.closed place earlier other inside
    · rw [List.mem_singleton.mp here] at inside
      exact stands.around other inside
  · intro place found inside
    rw [last]
    rcases List.mem_append.mp found with earlier | here
    · exact stands.outermost place earlier inside
    · rw [List.mem_singleton.mp here]

theorem Stands.behind {before : List Place} {above : List Entry} (stands : Stands before above)
    (tree : Rose Entry) : Stands (before ++ placesOf above tree) above := by
  have seenTree : seen (placesOf above tree) = tree.labels := placesOf_entries above tree
  refine ⟨?_, ?_, stands.nonempty, ?_⟩
  · intro entry found
    rw [seen_append]
    exact List.mem_append_left _ (stands.around entry found)
  · intro place found entry inside
    rw [seen_append, seenTree]
    rcases List.mem_append.mp found with earlier | here
    · exact List.mem_append_left _ (stands.closed place earlier entry inside)
    · obtain ⟨inner, around, within⟩ := above_of_mem_placesOf above tree place here
      rw [around] at inside
      rcases List.mem_append.mp inside with below | outside
      · exact List.mem_append_right _ (within entry below)
      · exact List.mem_append_left _ (stands.around entry outside)
  · intro place found inside
    rcases List.mem_append.mp found with earlier | here
    · exact stands.outermost place earlier inside
    · obtain ⟨inner, around, -⟩ := above_of_mem_placesOf above tree place here
      rw [around, List.getLast?_append_of_ne_nil inner stands.nonempty]

theorem takeWhile_seen {before : List Place} {entry : Entry} (found : entry ∈ seen before)
    (more : List Place) :
    (before ++ more).takeWhile (fun place => decide (place.entry ≠ entry)) =
      before.takeWhile fun place => decide (place.entry ≠ entry) := by
  induction before with
  | nil => cases found
  | cons place before ih =>
      by_cases here : place.entry = entry
      · simp [here]
      · have later : entry ∈ seen before := by
          simpa [seen, Ne.symm here] using found
        simpa [here] using ih later

/-- The class around a node is settled where the class begins. -/
theorem classOf_append {before : List Place} {above : List Entry}
    (around : ∀ entry ∈ above, entry ∈ seen before) (more : List Place) :
    classOf above (before ++ more) = classOf above before := by
  induction above with
  | nil => rfl
  | cons entry above ih =>
      have further := ih fun other found => around other (List.mem_cons_of_mem entry found)
      have stays := takeWhile_seen (around entry List.mem_cons_self) more
      unfold classOf
      split
      · rw [stays]
      · rfl
      · rfl
      · exact further

theorem scopeAt_append {before : List Place} {above : List Entry}
    (around : ∀ entry ∈ above, entry ∈ seen before) (more : List Place) :
    scopeAt (before ++ more) above =
      ⟨spaceOf above, importPairs (importsOf before above ++ importsOf more above),
        classOf above before⟩ := by
  rw [scopeAt, importsOf_append, classOf_append around]

/-- Places that import nothing, or nothing that is seen, do not change what is in force. -/
theorem scopeAt_append_of_none {before : List Place} {above : List Entry}
    (around : ∀ entry ∈ above, entry ∈ seen before) {more : List Place}
    (nothing : importsOf more above = []) :
    scopeAt (before ++ more) above = scopeAt before above := by
  rw [scopeAt_append around, nothing, List.append_nil, scopeAt]

theorem importsOf_plain {place : Place} (plain : place.entry.kind.importList = [])
    (above : List Entry) : importsOf [place] above = [] := by
  simp [importsOf, plain]

theorem reaches_through {entry opener : Entry} (noSpace : entry.kind.isSpace = false)
    (other : opener ≠ entry) (above : List Entry) :
    reaches opener (entry :: above) = reaches opener above := by
  simp [reaches, noSpace, other.symm]

/-- The opener of a place is no node that opens no scope, unless that is the outermost one. -/
theorem openerOf_ne {entry : Entry} {above : List Entry} {opener : Entry}
    (plain : entry.kind.opensScope = false) (found : openerOf above = some opener)
    (last : ∀ root ∈ above.getLast?, root ≠ entry) : opener ≠ entry := by
  rcases Option.or_eq_some_iff.mp found with nearest | ⟨-, outermost⟩
  · rintro rfl
    rw [List.find?_some nearest] at plain
    cases plain
  · exact last opener outermost

theorem importsOf_through {before : List Place} {above : List Entry} {entry : Entry}
    (stands : Stands before above) (plain : entry.kind.opensScope = false)
    (fresh : entry ∉ seen before) {more : List Place}
    (below : ∀ place ∈ more, ∃ inner, place.above = inner ++ above) :
    importsOf (before ++ more) (entry :: above) = importsOf (before ++ more) above := by
  have noSpace := not_isSpace_of_plain plain
  have outermost : ∀ root ∈ above.getLast?, root ≠ entry := by
    rintro root found rfl
    exact fresh (stands.around root (List.mem_of_getLast? found))
  -- the outermost node is an opener of whatever kind it is, so it has to be another node
  have last : ∀ place ∈ before ++ more, ∀ root ∈ place.above.getLast?, root ≠ entry := by
    intro place found root ends
    rcases List.mem_append.mp found with earlier | later
    · by_cases inside : place.above = []
      · rw [inside] at ends
        cases ends
      · exact outermost root (stands.outermost place earlier inside ▸ ends)
    · obtain ⟨inner, around⟩ := below place later
      rw [around, List.getLast?_append_of_ne_nil inner stands.nonempty] at ends
      exact outermost root ends
  have same : ∀ place ∈ before ++ more, isSeen place (entry :: above) = isSeen place above := by
    intro place found
    unfold isSeen
    cases opens : openerOf place.above with
    | none => rfl
    | some opener =>
        have other := openerOf_ne plain opens (last place found)
        simp only [Option.any_some, reaches_through noSpace other]
  exact List.flatMap_congr fun place found => by rw [same place found]

/-- A node that opens no scope is seen through. -/
theorem scopeAt_through {before : List Place} {above : List Entry} {entry : Entry}
    (stands : Stands before above) (plain : entry.kind.opensScope = false)
    (fresh : entry ∉ seen before) {more : List Place}
    (below : ∀ place ∈ more, ∃ inner, place.above = inner ++ above) :
    scopeAt (before ++ more) (entry :: above) = scopeAt (before ++ more) above := by
  have noSpace := not_isSpace_of_plain plain
  have space : spaceOf (entry :: above) = spaceOf above := by simp [spaceOf, noSpace]
  have context : classOf (entry :: above) (before ++ more) = classOf above (before ++ more) := by
    rw [classOf]
    split
    · next opens =>
        rw [opens] at plain
        cases plain
    · next opens =>
        rw [opens] at plain
        cases plain
    · next opens =>
        rw [opens] at plain
        cases plain
    · rfl
  rw [scopeAt, space, importsOf_through stands plain fresh below, context, scopeAt]

/-- The scope within a node that is seen through: before its children it is the one around the
node, and behind them it is the one that is left behind the node. -/
theorem scopeAt_plain {before : List Place} {above : List Entry} {entry : Entry}
    (children : List (Rose Entry)) (stands : Stands before above)
    (plain : entry.kind.opensScope = false) (nothing : entry.kind.importList = [])
    (fresh : entry ∉ seen before) :
    scopeAt (before ++ [⟨entry, above⟩]) (entry :: above) = scopeAt before above ∧
      scopeAt ((before ++ [⟨entry, above⟩]) ++ placesBelow (entry :: above) children)
          (entry :: above) =
        scopeAt (before ++ placesOf above (.branch entry children)) above := by
  have here : ∀ place ∈ [Place.mk entry above], ∃ inner, place.above = inner ++ above := by
    intro place found
    rw [List.mem_singleton.mp found]
    exact ⟨[], rfl⟩
  have below : ∀ place ∈ placesOf above (.branch entry children),
      ∃ inner, place.above = inner ++ above := by
    intro place found
    obtain ⟨inner, around, -⟩ := above_of_mem_placesOf above _ place found
    exact ⟨inner, around⟩
  have whole : (before ++ [⟨entry, above⟩]) ++ placesBelow (entry :: above) children =
      before ++ placesOf above (.branch entry children) := by
    simp [placesOf]
  constructor
  · rw [scopeAt_through stands plain fresh here]
    exact scopeAt_append_of_none stands.around (importsOf_plain nothing above)
  · rw [whole]
    exact scopeAt_through stands plain fresh below

theorem takeWhile_fresh {before : List Place} {entry : Entry} (fresh : entry ∉ seen before)
    (above : List Entry) :
    (before ++ [Place.mk entry above]).takeWhile (fun place => decide (place.entry ≠ entry)) =
      before := by
  have all : ∀ place ∈ before, decide (place.entry ≠ entry) = true := by
    intro place found
    have other : place.entry ≠ entry := fun same => fresh (List.mem_map.mpr ⟨place, found, same⟩)
    simpa using other
  rw [List.takeWhile_append_of_pos all]
  simp

/-- Within a namespace nothing from outside of it is seen, and within a class or a function all
that was seen where it begins. -/
theorem importsOf_enter {before : List Place} {above : List Entry} {entry : Entry}
    (stands : Stands before above) (opens : entry.kind.opensScope = true)
    (fresh : entry ∉ seen before) :
    importsOf (before ++ [⟨entry, above⟩]) (entry :: above) =
      if entry.kind.isSpace then [] else importsOf before above := by
  have here : importsOf [⟨entry, above⟩] (entry :: above) = [] :=
    importsOf_plain (importList_of_opens opens) _
  have step : ∀ place ∈ before, isSeen place (entry :: above) =
      (!entry.kind.isSpace && isSeen place above) := by
    intro place found
    unfold isSeen
    cases opened : openerOf place.above with
    | none => simp
    | some opener =>
        have other : entry ≠ opener := by
          rintro rfl
          exact fresh (stands.closed place found entry (mem_of_openerOf opened))
        simp [reaches, other]
  rw [importsOf_append, here, List.append_nil]
  cases space : entry.kind.isSpace with
  | true =>
      have none_seen : ∀ place ∈ before, isSeen place (entry :: above) = false := by
        intro place found
        rw [step place found, space]
        rfl
      simp only [↓reduceIte, importsOf, List.flatMap_eq_nil_iff]
      intro place found
      simp [none_seen place found]
  | false =>
      have same : ∀ place ∈ before, isSeen place (entry :: above) = isSeen place above := by
        intro place found
        rw [step place found, space]
        rfl
      exact List.flatMap_congr fun place found => by rw [same place found]

theorem scopeAt_space {before : List Place} {above : List Entry} {entry : Entry}
    {name : Option Text} (stands : Stands before above) (kind : entry.kind = .space name)
    (fresh : entry ∉ seen before) :
    scopeAt (before ++ [⟨entry, above⟩]) (entry :: above) = .inSpace name := by
  have imports := importsOf_enter stands (by rw [kind]; rfl) fresh
  have space : spaceOf (entry :: above) = name := by
    simp [spaceOf, kind, NodeKind.isSpace, NodeKind.name?]
  have context : classOf (entry :: above) (before ++ [⟨entry, above⟩]) = none := by
    simp [classOf, kind]
  rw [scopeAt, space, imports, context, kind]
  rfl

theorem scopeAt_class {before : List Place} {above : List Entry} {entry : Entry}
    {classKind : ClassKind} {name : Text} {parent : Option Text} (stands : Stands before above)
    (kind : entry.kind = .classLike classKind name parent) (fresh : entry ∉ seen before) :
    scopeAt (before ++ [⟨entry, above⟩]) (entry :: above) =
      (scopeAt before above).inClass
        (NameTable.contextOf (scopeAt before above) classKind name parent) := by
  have imports := importsOf_enter stands (by rw [kind]; rfl) fresh
  have space : spaceOf (entry :: above) = spaceOf above := by
    simp [spaceOf, kind, NodeKind.isSpace]
  have context : classOf (entry :: above) (before ++ [⟨entry, above⟩]) =
      some (NameTable.contextOf (scopeAt before above) classKind name parent) := by
    rw [classOf, kind]
    dsimp only
    rw [takeWhile_fresh fresh above]
    rfl
  rw [scopeAt, space, imports, context, kind]
  rfl

theorem scopeAt_function {before : List Place} {above : List Entry} {entry : Entry} {name : Text}
    (stands : Stands before above) (kind : entry.kind = .function .free name)
    (fresh : entry ∉ seen before) :
    scopeAt (before ++ [⟨entry, above⟩]) (entry :: above) = (scopeAt before above).inFunction := by
  have imports := importsOf_enter stands (by rw [kind]; rfl) fresh
  have space : spaceOf (entry :: above) = spaceOf above := by
    simp [spaceOf, kind, NodeKind.isSpace]
  have context : classOf (entry :: above) (before ++ [⟨entry, above⟩]) = none := by
    simp [classOf, kind]
  rw [scopeAt, space, imports, context, kind]
  rfl

/-- Behind a node that opens a scope, what was in force before it is in force again. -/
theorem scopeAt_closed {before : List Place} {above : List Entry} {entry : Entry}
    {children : List (Rose Entry)} (stands : Stands before above)
    (opens : entry.kind.opensScope = true)
    (once : (seen before ++ entry :: Rose.labelsAll children).Nodup) :
    scopeAt (before ++ placesOf above (.branch entry children)) above = scopeAt before above := by
  refine scopeAt_append_of_none stands.around ?_
  rw [importsOf, List.flatMap_eq_nil_iff]
  intro place found
  rw [placesOf, List.mem_cons] at found
  rcases found with rfl | below
  · simp [importList_of_opens opens]
  · obtain ⟨inner, around, within⟩ :=
      above_of_mem_placesBelow (entry :: above) children place below
    have inside : ∀ opener, openerOf place.above = some opener →
        opener ∈ entry :: Rose.labelsAll children := by
      intro opener found
      rw [around, openerOf, List.find?_append] at found
      cases nearest : inner.find? (fun entry => entry.kind.opensScope) with
      | some nearer =>
          simp only [nearest, Option.some_or, Option.some.injEq] at found
          rw [← found]
          exact List.mem_cons_of_mem entry (within nearer (List.mem_of_find?_eq_some nearest))
      | none =>
          simp only [nearest, opens, List.find?_cons_of_pos, Option.none_or, Option.some_or,
            Option.some.injEq] at found
          rw [← found]
          exact List.mem_cons_self
    -- the opener stands within the node or is the node, and so not around it
    have unseen : isSeen place above = false := by
      unfold isSeen
      cases opened : openerOf place.above with
      | none => rfl
      | some opener =>
          by_contra met
          have outside := stands.around opener (mem_of_reaches (by simpa using met))
          exact List.disjoint_of_nodup_append once outside (inside opener opened)
    simp [unseen]

theorem addImports_eq (scope : Scope) (list : List Import) :
    scope.addImports list =
      ⟨scope.space, importPairs list ++ scope.imports, scope.enclosing⟩ := by
  induction list generalizing scope with
  | nil => rfl
  | cons item items ih => simp [Scope.addImports, ih, importPairs]

/-- Imports are in force from the place where they stand. -/
theorem scopeAt_imports {before : List Place} {above : List Entry} {entry : Entry}
    {list : List Import} (stands : Stands before above) (kind : entry.kind = .imports list) :
    scopeAt (before ++ [⟨entry, above⟩]) above = (scopeAt before above).addImports list := by
  obtain ⟨opener, found, met⟩ := reaches_openerOf stands.nonempty
  have here : importsOf [⟨entry, above⟩] above = list := by
    simp [importsOf, isSeen, found, met, kind, NodeKind.importList]
  rw [scopeAt_append stands.around, here, importPairs_append, addImports_eq]
  rfl

/-- What the walk notes at a node when a scope is in force. -/
def namingAt (scope : Scope) (entry : Entry) : Option Naming :=
  match entry.kind with
  | .program | .block | .imports _ => none
  | .space name => some ⟨entry.id, name, none, none⟩
  | .classLike kind name parent =>
    some ⟨entry.id, some (NameTable.contextOf scope kind name parent).name, none, none⟩
  | .function .free name => some ⟨entry.id, some (scope.qualify name), some scope.inFunction, none⟩
  | .function _ name => some ⟨entry.id, some name, some scope, none⟩
  | .reference name => some (NameTable.ofReference scope entry.id entry.line name)

/-- What is noted at some places, each with the scope that looking around gives. -/
def namingsFrom (before : List Place) : List Place → List Naming
  | [] => []
  | place :: places =>
    (namingAt (scopeAt before place.above) place.entry).toList ++
      namingsFrom (before ++ [place]) places

theorem namingsFrom_append (before places more : List Place) :
    namingsFrom before (places ++ more) =
      namingsFrom before places ++ namingsFrom (before ++ places) more := by
  induction places generalizing before with
  | nil => simp [namingsFrom]
  | cons place places ih => simp [namingsFrom, ih]

def isLeaf : NodeKind → Bool
  | .imports _ | .reference _ => true
  | _ => false

/-- Imports and references have nothing below them. -/
def LeavesBare (trees : List (Rose Entry)) : Prop :=
  ∀ tree ∈ trees, isLeaf tree.label.kind = true → tree.children = []

instance (trees : List (Rose Entry)) : Decidable (LeavesBare trees) :=
  decidable_of_iff
    (∀ tree ∈ trees, isLeaf tree.label.kind = true → tree.children.isEmpty = true)
    (by simp only [LeavesBare, List.isEmpty_iff])

mutual

/-- The walk over one tree: the scope that it is given and the one that it gives back are those
that looking around gives, before the tree and behind it. -/
theorem walk_eq : ∀ (tree : Rose Entry) {before : List Place} {above : List Entry},
    Stands before above → (seen before ++ tree.labels).Nodup → LeavesBare tree.preorder →
    NameTable.walk (scopeAt before above) tree =
      (scopeAt (before ++ placesOf above tree) above, namingsFrom before (placesOf above tree))
  | .branch entry children, before, above, stands, once, bare => by
      rw [Rose.labels_branch] at once
      have fresh : entry ∉ seen before := fun found =>
        List.disjoint_of_nodup_append once found List.mem_cons_self
      have below := walkAll_eq children (stands.enter entry)
        (by simpa [seen] using once) (fun tree found => bare tree (List.mem_cons_of_mem _ found))
      have childless : isLeaf entry.kind = true → children = [] :=
        fun leaf => bare (.branch entry children) List.mem_cons_self leaf
      have whole : before ++ placesOf above (.branch entry children) =
          (before ++ [⟨entry, above⟩]) ++ placesBelow (entry :: above) children := by
        simp [placesOf]
      have noted : namingsFrom before (placesOf above (.branch entry children)) =
          (namingAt (scopeAt before above) entry).toList ++
            namingsFrom (before ++ [⟨entry, above⟩]) (placesBelow (entry :: above) children) := rfl
      -- the scope handed to the children, and the one that they hand back
      have through := fun plain nothing => scopeAt_plain children stands plain nothing fresh
      -- program, block and method are seen through, and a leaf has no children to speak of; what
      -- the others hand to their children ends with them
      cases kind : entry.kind with
      | program =>
          obtain ⟨entered, left⟩ := through (by rw [kind]; rfl) (by rw [kind]; rfl)
          rw [entered, left] at below
          simp only [NameTable.walk, kind, below, noted, namingAt, Option.toList_none,
            List.nil_append]
      | block =>
          obtain ⟨entered, left⟩ := through (by rw [kind]; rfl) (by rw [kind]; rfl)
          rw [entered, left] at below
          simp only [NameTable.walk, kind, below, noted, namingAt, Option.toList_none,
            List.nil_append]
      | space name =>
          rw [scopeAt_space stands kind fresh] at below
          rw [scopeAt_closed stands (by rw [kind]; rfl) once]
          simp only [NameTable.walk, kind, below, noted, namingAt, Option.toList_some,
            List.singleton_append]
      | imports list =>
          have empty := childless (by rw [kind]; rfl)
          subst empty
          have entered := scopeAt_imports stands kind
          simp only [NameTable.walk, kind, noted, namingAt, whole, placesBelow, List.append_nil,
            entered, namingsFrom, Option.toList_none]
      | classLike classKind name parent =>
          rw [scopeAt_class stands kind fresh] at below
          rw [scopeAt_closed stands (by rw [kind]; rfl) once]
          simp only [NameTable.walk, kind, below, noted, namingAt, Option.toList_some,
            List.singleton_append]
      | function functionKind name =>
          cases functionKind with
          | free =>
              rw [scopeAt_function stands kind fresh] at below
              rw [scopeAt_closed stands (by rw [kind]; rfl) once]
              simp only [NameTable.walk, kind, below, noted, namingAt, Option.toList_some,
                List.singleton_append]
          | method =>
              obtain ⟨entered, left⟩ := through (by rw [kind]; rfl) (by rw [kind]; rfl)
              rw [entered, left] at below
              simp only [NameTable.walk, kind, below, noted, namingAt, Option.toList_some,
                List.singleton_append]
          | staticMethod =>
              obtain ⟨entered, left⟩ := through (by rw [kind]; rfl) (by rw [kind]; rfl)
              rw [entered, left] at below
              simp only [NameTable.walk, kind, below, noted, namingAt, Option.toList_some,
                List.singleton_append]
      | reference name =>
          have empty := childless (by rw [kind]; rfl)
          subst empty
          have unchanged : scopeAt (before ++ [⟨entry, above⟩]) above = scopeAt before above :=
            scopeAt_append_of_none stands.around (importsOf_plain (by rw [kind]; rfl) above)
          simp only [NameTable.walk, kind, noted, namingAt, whole, placesBelow, List.append_nil,
            unchanged, namingsFrom, Option.toList_some]

theorem walkAll_eq : ∀ (trees : List (Rose Entry)) {before : List Place} {above : List Entry},
    Stands before above → (seen before ++ Rose.labelsAll trees).Nodup →
    LeavesBare (Rose.preorderAll trees) →
    NameTable.walkAll (scopeAt before above) trees =
      (scopeAt (before ++ placesBelow above trees) above,
        namingsFrom before (placesBelow above trees))
  | [], before, above, _, _, _ => by simp [NameTable.walkAll, placesBelow, namingsFrom]
  | tree :: trees, before, above, stands, once, bare => by
      rw [Rose.labelsAll_cons, ← List.append_assoc] at once
      have first := walk_eq tree stands (List.Nodup.of_append_left once)
        (fun tree found => bare tree (List.mem_append_left _ found))
      have seenBoth : seen (before ++ placesOf above tree) = seen before ++ tree.labels := by
        rw [seen_append]
        exact congrArg _ (placesOf_entries above tree)
      have rest := walkAll_eq trees (stands.behind tree) (by rwa [seenBoth])
        (fun tree found => bare tree (List.mem_append_right _ found))
      simp only [NameTable.walkAll, first, rest, placesBelow, namingsFrom_append, List.append_assoc]

end

end DocSig.Lexical
