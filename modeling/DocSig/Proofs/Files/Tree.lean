import DocSig.Files.Basic
import DocSig.Proofs.Files.Components
import Mathlib.Data.List.Nodup

/-!
Trees of files as a file system holds them.

In a folder every name stands once, so a name leads to what stands beside it (`lookup_eq_some_iff`),
and a fact about a tree goes by induction on what stands in its folders (`FileTree.induction`).
Putting a file somewhere changes no other file (`sameBeside_put`).
-/

set_option autoImplicit false

namespace DocSig

namespace FileTree

variable {entries : List (Bytes × FileTree)} {name : Bytes} {tree sub : FileTree} {route : Route}

/-- What holds of files, and of a folder if it holds of all that stands in it, holds of trees. -/
@[elab_as_elim]
theorem induction {motive : FileTree → Prop} (file : ∀ content, motive (.file content))
    (folder : ∀ entries, (∀ name sub, (name, sub) ∈ entries → motive sub) →
      motive (.folder entries)) (sealed : ∀ reason, motive (.sealed reason)) (tree : FileTree) :
    motive tree := by
  match tree with
  | .file content => exact file content
  | .folder entries =>
      exact folder entries fun name sub listed => induction file folder sealed sub
  | .sealed reason => exact sealed reason
termination_by sizeOf tree
decreasing_by
  have inside := List.sizeOf_lt_of_mem listed
  simp only [Prod.mk.sizeOf_spec, FileTree.folder.sizeOf_spec] at inside ⊢
  omega

@[simp] theorem find?_nil : tree.find? [] = some tree := by
  rw [find?]

@[simp] theorem find?_file_cons {content : Except Text Bytes} :
    (file content).find? (name :: route) = none := by
  rw [find?]
  rfl

@[simp] theorem find?_sealed_cons {reason : Text} :
    (FileTree.sealed reason).find? (name :: route) = none := by
  rw [find?]
  rfl

theorem find?_cons : tree.find? (name :: route) = (tree.child? name).bind (find? route) := by
  rw [find?]

theorem find?_file {content : Except Text Bytes} {found : FileTree} :
    (file content).find? route = some found ↔ route = [] ∧ found = file content := by
  cases route with
  | nil => simp [eq_comm]
  | cons name route => simp

theorem find?_sealed {reason : Text} {found : FileTree} :
    (FileTree.sealed reason).find? route = some found ↔
      route = [] ∧ found = FileTree.sealed reason := by
  cases route with
  | nil => simp [eq_comm]
  | cons name route => simp

theorem lookup_cons_eq (other : Bytes) : ((name, sub) :: entries).lookup other =
    if other = name then some sub else entries.lookup other := by
  rw [List.lookup_cons]
  by_cases same : other = name
  · rw [if_pos same, beq_iff_eq.mpr same]
  · rw [if_neg same, beq_eq_false_iff_ne.mpr same]

/-- In a folder whose names differ, a name leads to what stands beside it. -/
theorem lookup_eq_some_iff (distinct : (entries.map Prod.fst).Nodup) :
    entries.lookup name = some sub ↔ (name, sub) ∈ entries := by
  induction entries with
  | nil => simp
  | cons entry entries ih =>
      obtain ⟨other, first⟩ := entry
      obtain ⟨absent, distinct⟩ := List.nodup_cons.mp distinct
      rw [lookup_cons_eq, List.mem_cons, Prod.mk.injEq]
      by_cases same : name = other
      · subst same
        have later : (name, sub) ∉ entries := fun listed =>
          absent (List.mem_map.mpr ⟨_, listed, rfl⟩)
        simp [later, eq_comm]
      · simp [same, ih distinct]

theorem find?_folder_cons (distinct : (entries.map Prod.fst).Nodup) {found : FileTree} :
    (folder entries).find? (name :: route) = some found ↔
      ∃ sub, (name, sub) ∈ entries ∧ sub.find? route = some found := by
  rw [find?_cons, Option.bind_eq_some_iff]
  simp only [child?, FileTree.entries, lookup_eq_some_iff distinct]

/-- What some property says of the entries of a folder holds of every folder of a tree. -/
def Everywhere (property : List (Bytes × FileTree) → Prop) (tree : FileTree) : Prop :=
  ∀ route entries, tree.find? route = some (.folder entries) → property entries

variable {property : List (Bytes × FileTree) → Prop}

theorem everywhere_file {content : Except Text Bytes} : (file content).Everywhere property := by
  intro route entries found
  cases (find?_file.mp found).2

theorem everywhere_folder (distinct : (entries.map Prod.fst).Nodup) :
    (folder entries).Everywhere property ↔
      property entries ∧ ∀ entry ∈ entries, entry.2.Everywhere property := by
  constructor
  · refine fun holds => ⟨holds [] entries find?_nil, fun entry listed route below found => ?_⟩
    obtain ⟨name, sub⟩ := entry
    exact holds (name :: route) below ((find?_folder_cons distinct).mpr ⟨sub, listed, found⟩)
  · rintro ⟨here, below⟩ route others found
    cases route with
    | nil =>
        cases found
        exact here
    | cons name route =>
        obtain ⟨sub, listed, found⟩ := (find?_folder_cons distinct).mp found
        exact below (name, sub) listed route others found

/-- The files of two trees are the same, except perhaps the one that some names lead to. -/
def SameBeside (route : Route) (tree other : FileTree) : Prop :=
  ∀ there, there ≠ route → ∀ content,
    tree.find? there = some (.file content) ↔ other.find? there = some (.file content)

theorem SameBeside.symm {other : FileTree} (same : SameBeside route tree other) :
    SameBeside route other tree :=
  fun there beside content => (same there beside content).symm

theorem lookup_setEntry (other : Bytes) : (setEntry name sub entries).lookup other =
    if other = name then some sub else entries.lookup other := by
  induction entries with
  | nil => rw [setEntry, lookup_cons_eq]
  | cons entry entries ih =>
      obtain ⟨first, tree⟩ := entry
      rw [setEntry]
      by_cases here : first = name
      · rw [if_pos here, lookup_cons_eq, lookup_cons_eq, here]
        by_cases same : other = name <;> simp [same]
      · rw [if_neg here, lookup_cons_eq, lookup_cons_eq, ih]
        by_cases same : other = first <;> simp [same, here]

/-- What is missing holds no more files than an empty folder. -/
theorem find?_getD {place : Option FileTree} {content : Except Text Bytes} :
    (place.getD (.folder [])).find? route = some (.file content) ↔
      place.bind (find? route) = some (.file content) := by
  cases place with
  | some tree => rfl
  | none =>
      cases route with
      | nil => simp
      | cons name route => simp [find?_cons, child?, FileTree.entries]

/-- A file can be put where no file stands on the way nor further down, and no other file changes
with it. -/
theorem sameBeside_put (content : Except Text Bytes)
    (clear : ∀ there, there <+: route ∨ route <+: there → there ≠ route →
      ∀ old, tree.find? there ≠ some (.file old)) :
    SameBeside route tree (put (.file content) route tree) := by
  induction route generalizing tree with
  | nil =>
      intro there beside held
      have absent := clear there (.inr List.nil_prefix) beside held
      rw [put, find?_file]
      exact ⟨fun stands => absurd stands absent, fun stands => absurd stands.1 beside⟩
  | cons name route ih =>
      have notFile := clear [] (.inl List.nil_prefix) (List.cons_ne_nil _ _).symm
      intro there beside held
      cases there with
      | nil =>
          rw [put, find?_nil]
          exact ⟨fun stands => absurd stands (notFile held), nofun⟩
      | cons other rest =>
          rw [put, find?_cons, find?_cons, child?, child?, FileTree.entries, lookup_setEntry]
          by_cases same : other = name
          · subst same
            have later : SameBeside route ((tree.child? other).getD (.folder []))
                (put (.file content) route ((tree.child? other).getD (.folder []))) := by
              refine ih fun there near apart old stands => ?_
              refine clear (other :: there) ?_ (fun same => apart (List.cons.inj same).2) old ?_
              · simpa only [List.cons_prefix_cons, true_and] using near
              · rw [find?_cons]
                exact find?_getD.mp stands
            rw [if_pos rfl, Option.bind_some, ← later rest (fun same => beside (same ▸ rfl)),
              find?_getD]
            rfl
          · rw [if_neg same]

theorem find?_append (first second : Route) :
    tree.find? (first ++ second) = (tree.find? first).bind (find? second) := by
  induction first generalizing tree with
  | nil => rw [List.nil_append, find?_nil, Option.bind_some]
  | cons name first ih =>
      rw [List.cons_append, find?_cons, find?_cons, Option.bind_assoc]
      exact Option.bind_congr fun sub _ => ih

/-- Where a file stands, no other one stands on the way nor further down. -/
theorem not_file_of_file {content : Except Text Bytes}
    (stands : tree.find? route = some (.file content)) {there : Route}
    (near : there <+: route ∨ route <+: there) (apart : there ≠ route) (old : Except Text Bytes) :
    tree.find? there ≠ some (.file old) := by
  intro before
  obtain ⟨rest, same⟩ | ⟨rest, same⟩ := near
  · rw [← same, find?_append, before, Option.bind_some, find?_file] at stands
    exact apart (by rw [← same, stands.1, List.append_nil])
  · rw [← same, find?_append, stands, Option.bind_some, find?_file] at before
    exact apart (by rw [← same, before.1, List.append_nil])

/-- The routes to all that is in a tree, each once, in some order. -/
structure Walks (tree : FileTree) (routes : List Route) : Prop where
  once : routes.Nodup
  complete : ∀ route, route ∈ routes ↔ ∃ found, tree.find? route = some found

end FileTree

/-- At a path stands a folder with all that is in a tree: each file and each folder has its kind,
files have their content, and a walk comes upon each of them once. Beside them the walk may come
upon what it cannot read. -/
structure FileSystem.Holds (files : FileSystem) (path : Path) (tree : FileTree) : Prop where
  folder : tree.isFolder = true
  named : ∀ route found, tree.find? route = some found → ∀ name ∈ route, IsName name
  kind : ∀ route found, tree.find? route = some found →
    files.kind (path.follow route) = .ok (if found.isFolder then .folder else .file)
  read : ∀ route content, tree.find? route = some (.file content) →
    files.read (path.follow route) = content
  walk : ∃ routes, tree.Walks routes ∧
    (files.walk path).filterMap Except.toOption = routes.map path.follow

end DocSig
