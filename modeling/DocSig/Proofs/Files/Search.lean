import DocSig.Files.Search
import DocSig.Proofs.Files.Tree

/-!
What a search of a folder comes upon.

Where no folder holds rules (`Silent`), a search leaves nothing out: it comes upon all that is in
the tree, each file and each folder once (`walks_visible`).
-/

set_option autoImplicit false

namespace DocSig.Files

/-- A folder has no rules: the files that could hold some are missing, or have no line that is
one. -/
def Unruled (folder : FileTree) : Prop :=
  ∀ place ∈ ruleFiles, ∀ bytes, folder.find? place = some (.file (.ok bytes)) → rulesOf bytes = []

/-- There are no rules in force. -/
def Silent (rules : RulesInForce) : Prop :=
  ∀ folder ∈ rules, ∀ ofRank ∈ folder.ranked, ofRank = []

variable {rules : RulesInForce} {folder : FileTree} {name : Bytes}

theorem silent_enter (silent : Silent rules) (unruled : Unruled folder) :
    Silent (rules.enter folder) := by
  refine List.forall_mem_cons.mpr ⟨?_, silent⟩
  intro ofRank listed
  obtain ⟨place, among, rfl⟩ := List.mem_map.mp listed
  split
  · next bytes found =>
      obtain ⟨tree, stands, same⟩ := Option.bind_eq_some_iff.mp found
      cases tree with
      | file content =>
          cases content with
          | ok content =>
              cases same
              exact unruled place among bytes stands
          | error reason => cases same
      | folder entries => cases same
      | «sealed» reason => cases same
  · rfl

theorem silent_down (silent : Silent rules) : Silent (rules.down name) := by
  intro below listed
  obtain ⟨above, among, rfl⟩ := List.mem_map.mp listed
  exact silent above among

theorem leavesOut_of_silent (silent : Silent rules) (isFolder : Bool) :
    rules.leavesOut name isFolder = false := by
  have undecided : ((List.range ruleFiles.length).flatMap fun rank =>
      rules.filterMap (FolderRules.verdict? rank name isFolder)) = [] := by
    refine List.flatMap_eq_nil_iff.mpr fun rank _ => ?_
    refine List.filterMap_eq_nil_iff.mpr fun folder listed => ?_
    have none_ : folder.ranked[rank]?.getD [] = [] := by
      cases found : folder.ranked[rank]? with
      | none => rfl
      | some ofRank => exact silent folder listed ofRank (List.mem_of_getElem? found)
    simp [FolderRules.verdict?, none_]
  unfold RulesInForce.leavesOut
  rw [undecided]
  rfl

/-- Rules come from the folders above a place and from the place itself, and from nowhere else. -/
theorem silent_above {place : Route} {tree goal : FileTree} (silent : Silent rules)
    (reached : tree.find? place = some goal)
    (unruled : ∀ upper, upper <+: place → ∀ folder, tree.find? upper = some folder →
      Unruled folder) : Silent (RulesInForce.above rules place tree) := by
  induction place generalizing rules tree with
  | nil => exact silent
  | cons name place ih =>
      rw [FileTree.find?_cons] at reached
      obtain ⟨sub, stands, reached⟩ := Option.bind_eq_some_iff.mp reached
      have here := unruled [] List.nil_prefix tree FileTree.find?_nil
      rw [RulesInForce.above, stands]
      refine ih (silent_down (silent_enter silent here)) reached fun upper starts folder found => ?_
      refine unruled (name :: upper) (List.cons_prefix_cons.mpr ⟨rfl, starts⟩) folder ?_
      rw [FileTree.find?_cons, stands]
      exact found

/-- A folder whose names can be told apart and that has no rules. -/
structure Plain (entries : List (Bytes × FileTree)) : Prop where
  distinct : (entries.map Prod.fst).Nodup
  named : ∀ entry ∈ entries, IsName entry.1
  unruled : Unruled (.folder entries)

/-- The names that the routes to files of rules start with. -/
def ruleNames : List Bytes := ruleFiles.filterMap List.head?

/-- Nothing is needed of a folder but that its names are different, are names, and do not lead to
files of rules. -/
theorem plain_of_names {entries : List (Bytes × FileTree)} (names : List Bytes)
    (here : entries.map Prod.fst = names)
    (proper : names.Nodup ∧ ∀ name ∈ names, IsName name ∧ name ∉ ruleNames) : Plain entries := by
  subst here
  obtain ⟨distinct, named⟩ := proper
  have each (entry : Bytes × FileTree) (listed : entry ∈ entries) :
      IsName entry.1 ∧ entry.1 ∉ ruleNames := named entry.1 (List.mem_map_of_mem listed)
  refine ⟨distinct, fun entry listed => (each entry listed).1, ?_⟩
  intro place among bytes stands
  cases place with
  | nil => cases stands
  | cons name place =>
      obtain ⟨sub, listed, -⟩ := (FileTree.find?_folder_cons distinct).mp stands
      have start : name ∈ ruleNames := List.mem_filterMap.mpr ⟨name :: place, among, rfl⟩
      exact absurd start (each (name, sub) listed).2

theorem everywhere_plain {entries : List (Bytes × FileTree)} :
    (FileTree.folder entries).Everywhere Plain ↔
      Plain entries ∧ ∀ entry ∈ entries, entry.2.Everywhere Plain := by
  constructor
  · intro plain
    have here := plain [] entries FileTree.find?_nil
    exact (FileTree.everywhere_folder here.distinct).mp plain
  · rintro ⟨here, below⟩
    exact (FileTree.everywhere_folder here.distinct).mpr ⟨here, below⟩

variable {tree : FileTree} {route : Route}

theorem visibleIn_eq_flatMap {entries : List (Bytes × FileTree)} (silent : Silent rules) :
    visibleIn rules route entries = entries.flatMap fun entry =>
      visible (rules.down entry.1) (route ++ [entry.1]) entry.2 := by
  induction entries with
  | nil => rw [visibleIn, List.flatMap_nil]
  | cons entry entries ih =>
      rw [visibleIn, ih, leavesOut_of_silent silent, List.flatMap_cons]
      rfl

/-- A search comes upon what a route leads to, and upon nothing else. -/
theorem mem_visible (plain : tree.Everywhere Plain) (silent : Silent rules) {there : Route} :
    .ok there ∈ visible rules route tree ↔
      ∃ rest found, there = route ++ rest ∧ tree.find? rest = some found := by
  induction tree using FileTree.induction generalizing rules route with
  | file content =>
      simp only [visible, List.mem_singleton, Except.ok.injEq, FileTree.find?_file]
      constructor
      · rintro rfl
        exact ⟨[], _, (List.append_nil there).symm, rfl, rfl⟩
      · rintro ⟨rest, found, rfl, rfl, -⟩
        exact List.append_nil route
  | «sealed» reason =>
      simp only [visible, List.mem_cons, List.not_mem_nil, Except.ok.injEq, reduceCtorEq, or_false,
        FileTree.find?_sealed]
      constructor
      · rintro rfl
        exact ⟨[], _, (List.append_nil there).symm, rfl, rfl⟩
      · rintro ⟨rest, found, rfl, rfl, -⟩
        exact List.append_nil route
  | folder entries ih =>
      obtain ⟨here, below⟩ := everywhere_plain.mp plain
      have silent := silent_enter silent here.unruled
      rw [visible, visibleIn_eq_flatMap silent, List.mem_cons, List.mem_flatMap, Except.ok.injEq]
      constructor
      · rintro (rfl | ⟨⟨name, sub⟩, listed, found⟩)
        · exact ⟨[], _, (List.append_nil there).symm, FileTree.find?_nil⟩
        · obtain ⟨rest, found, same, stands⟩ :=
            (ih name sub listed (below (name, sub) listed) (silent_down silent)).mp found
          refine ⟨name :: rest, found, by rw [same, List.append_assoc, List.singleton_append], ?_⟩
          exact (FileTree.find?_folder_cons here.distinct).mpr ⟨sub, listed, stands⟩
      · rintro ⟨rest, found, same, stands⟩
        cases rest with
        | nil => exact Or.inl (same.trans (List.append_nil route))
        | cons name rest =>
            obtain ⟨sub, listed, stands⟩ := (FileTree.find?_folder_cons here.distinct).mp stands
            refine Or.inr ⟨(name, sub), listed, ?_⟩
            refine (ih name sub listed (below (name, sub) listed) (silent_down silent)).mpr ?_
            exact ⟨rest, found, by rw [same, List.append_assoc, List.singleton_append], stands⟩

theorem mem_filterMap_toOption {found : List (Except Text Route)} {there : Route} :
    there ∈ found.filterMap Except.toOption ↔ .ok there ∈ found := by
  rw [List.mem_filterMap]
  constructor
  · rintro ⟨each, listed, same⟩
    cases each with
    | ok route =>
        cases same
        exact listed
    | error reason => cases same
  · exact fun listed => ⟨.ok there, listed, rfl⟩

/-- A search comes upon nothing twice. -/
theorem nodup_visible (plain : tree.Everywhere Plain) (silent : Silent rules) :
    ((visible rules route tree).filterMap Except.toOption).Nodup := by
  induction tree using FileTree.induction generalizing rules route with
  | file content => exact List.nodup_singleton _
  | «sealed» reason => exact List.nodup_singleton _
  | folder entries ih =>
      obtain ⟨here, below⟩ := everywhere_plain.mp plain
      have silent := silent_enter silent here.unruled
      have inside : ∀ {name sub there}, (name, sub) ∈ entries →
          there ∈ (visible ((rules.enter (.folder entries)).down name) (route ++ [name])
            sub).filterMap Except.toOption → ∃ rest, there = route ++ name :: rest := by
        intro name sub there listed found
        obtain ⟨rest, -, same, -⟩ := (mem_visible (below (name, sub) listed)
          (silent_down silent)).mp (mem_filterMap_toOption.mp found)
        exact ⟨rest, by rw [same, List.append_assoc, List.singleton_append]⟩
      rw [visible, List.filterMap_cons, visibleIn_eq_flatMap silent, List.filterMap_flatMap]
      refine List.nodup_cons.mpr ⟨fun found => ?_, ?_⟩
      · obtain ⟨⟨name, sub⟩, listed, found⟩ := List.mem_flatMap.mp found
        obtain ⟨rest, same⟩ := inside listed found
        have lengths := congrArg List.length same
        rw [List.length_append, List.length_cons] at lengths
        omega
      · rw [List.nodup_flatMap]
        refine ⟨fun entry listed => ih _ _ listed (below _ listed) (silent_down silent), ?_⟩
        -- The routes through different names go on differently.
        refine (List.pairwise_map.mp here.distinct).imp_of_mem fun {a b} first second differ => ?_
        intro there left right
        obtain ⟨rest, same⟩ := inside first left
        obtain ⟨other, too⟩ := inside second right
        rw [same] at too
        exact differ (List.cons.inj (List.append_cancel_left too)).1

/-- A search without rules is a walk. -/
theorem walks_visible (plain : tree.Everywhere Plain) (silent : Silent rules) :
    tree.Walks ((visible rules [] tree).filterMap Except.toOption) := by
  refine ⟨nodup_visible plain silent, fun there => ?_⟩
  rw [mem_filterMap_toOption, mem_visible plain silent]
  constructor
  · rintro ⟨rest, found, rfl, stands⟩
    exact ⟨found, stands⟩
  · rintro ⟨found, stands⟩
    exact ⟨there, found, rfl, stands⟩

/-- The names on a route that leads somewhere. -/
theorem isName_of_find? (plain : tree.Everywhere Plain) {found : FileTree}
    (leads : tree.find? route = some found) : ∀ name ∈ route, IsName name := by
  induction route generalizing tree with
  | nil => exact nofun
  | cons name route ih =>
      cases tree with
      | file content => cases FileTree.find?_file_cons.symm.trans leads
      | «sealed» reason => cases FileTree.find?_sealed_cons.symm.trans leads
      | folder entries =>
          obtain ⟨here, below⟩ := everywhere_plain.mp plain
          obtain ⟨sub, listed, leads⟩ := (FileTree.find?_folder_cons here.distinct).mp leads
          have later := ih (below (name, sub) listed) leads
          exact List.forall_mem_cons.mpr ⟨here.named (name, sub) listed, later⟩

end DocSig.Files
