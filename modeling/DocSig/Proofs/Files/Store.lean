import DocSig.Files.Store
import DocSig.Proofs.Files.Search

/-!
A store shows what stands in its tree.

A path that goes on from a folder leads to what the names behind it lead to within the folder
(`find_follow`). So where no rules are in force, the file system of a store holds each of its
folders (`holds_toFileSystem`).
-/

set_option autoImplicit false

namespace DocSig.FileStore

open DocSig.Path (slash dot)

variable {store : FileStore} {root : FileTree} {path : Path} {place route : Route}
  {tree found : FileTree}

theorem follow_append (first second : List Bytes) (here : Route) :
    follow root (first ++ second) here = (follow root first here).bind (follow root second) := by
  induction first generalizing here with
  | nil => rfl
  | cons part first ih =>
      rw [List.cons_append, follow, follow]
      split
      · split
        · exact ih here
        · split
          · exact ih here.dropLast
          · split
            · exact ih (here ++ [part])
            · rfl
      · rfl

/-- Names are followed one by one as far as they lead somewhere. -/
theorem follow_route (named : ∀ name ∈ route, IsName name)
    (stands : root.find? place = some tree) (leads : tree.find? route = some found) :
    follow root route place = .ok (place ++ route) := by
  induction route generalizing place tree with
  | nil => rw [follow, List.append_nil]
  | cons name route ih =>
      obtain ⟨first, others⟩ := List.forall_mem_cons.mp named
      rw [FileTree.find?_cons, Option.bind_eq_some_iff] at leads
      obtain ⟨sub, inside, leads⟩ := leads
      cases tree with
      | file content => cases inside
      | «sealed» reason => cases inside
      | folder entries =>
          have below : root.find? (place ++ [name]) = some sub := by
            rw [FileTree.find?_append, stands, Option.bind_some, FileTree.find?_cons, inside]
            exact FileTree.find?_nil
          have listed : (entries.lookup name).isSome = true := by
            rw [show entries.lookup name = some sub from inside]
            rfl
          rw [follow, stands]
          dsimp only
          rw [if_neg (not_or.mpr ⟨first.nonempty, first.notHere⟩), if_neg first.notUp,
            if_pos listed, ih others below leads, List.append_assoc, List.singleton_append]

/-- The empty step behind a last slash stays. -/
theorem follow_slash {here : Route} (reached : follow root [[]] here = .ok place) :
    place = here := by
  rw [follow] at reached
  split at reached
  · rw [if_pos (Or.inl rfl), follow] at reached
    exact (Except.ok.inj reached).symm
  · cases reached

theorem locate_eq (some_ : path ≠ []) : store.locate path = follow store.root
    (path.splitOn slash) (if path.head? = some slash then [] else store.working) :=
  if_neg (by simpa using some_)

theorem locate_follow (located : store.locate path = .ok place)
    (named : ∀ name ∈ route, IsName name) (stands : store.root.find? place = some tree)
    (leads : tree.find? route = some found) :
    store.locate (path.follow route) = .ok (place ++ route) := by
  by_cases down : route = []
  · rw [Path.follow, if_pos down, located, down, List.append_nil]
  have some_ : path ≠ [] := by
    rintro rfl
    cases located
  obtain ⟨first, others, longer, shorter⟩ := Path.splitOn_follow some_ down named
  rw [locate_eq some_] at located
  rw [locate_eq (Path.follow_ne_nil some_ named), Path.head?_follow some_ named, longer,
    ← List.cons_append, follow_append]
  have start : follow store.root (first :: others)
      (if path.head? = some slash then [] else store.working) = .ok place := by
    rcases shorter with same | slashed
    · rwa [same] at located
    · rw [slashed, ← List.cons_append, follow_append] at located
      cases reached : follow store.root (first :: others)
          (if path.head? = some slash then [] else store.working) with
      | error fault =>
          rw [reached] at located
          cases located
      | ok here =>
          rw [reached] at located
          rw [follow_slash located]
  rw [start]
  exact follow_route named stands leads

theorem find_follow (located : store.locate path = .ok place)
    (named : ∀ name ∈ route, IsName name) (stands : store.root.find? place = some tree)
    (leads : tree.find? route = some found) :
    store.find (path.follow route) = .ok (place ++ route, found) := by
  have deeper : store.root.find? (place ++ route) = some found := by
    rw [FileTree.find?_append, stands, Option.bind_some, leads]
  unfold find
  simp only [locate_follow located named stands leads, bind, Except.bind, deeper]
  rfl

/-- A store holds a folder whose names can be told apart, if neither the folders below nor those on
the way to it hold rules. -/
theorem holds_toFileSystem {entries : List (Bytes × FileTree)}
    (located : store.locate path = .ok place)
    (stands : store.root.find? place = some (.folder entries))
    (unruled : ∀ upper, upper <+: place → ∀ folder, store.root.find? upper = some folder →
      Files.Unruled folder)
    (plain : (FileTree.folder entries).Everywhere Files.Plain) :
    store.toFileSystem.Holds path (.folder entries) := by
  have named : ∀ route found, (FileTree.folder entries).find? route = some found →
      ∀ name ∈ route, IsName name := fun route found leads => Files.isName_of_find? plain leads
  have finds : ∀ route found, (FileTree.folder entries).find? route = some found →
      store.find (path.follow route) = .ok (place ++ route, found) :=
    fun route found leads => find_follow located (named route found leads) stands leads
  constructor
  case folder => rfl
  case named => exact named
  case kind =>
    intro route found leads
    show store.kind (path.follow route) = _
    rw [kind, finds route found leads]
  case read =>
    intro route content leads
    show store.read (path.follow route) = _
    rw [read, finds route _ leads]
  case walk =>
    have silent : Files.Silent (Files.RulesInForce.above [] place store.root) :=
      Files.silent_above nofun stands unruled
    refine ⟨_, Files.walks_visible plain silent, ?_⟩
    have here := finds [] _ FileTree.find?_nil
    rw [List.append_nil] at here
    show (store.walk path).filterMap Except.toOption = _
    rw [walk, show store.find path = _ from here]
    dsimp only
    rw [List.filterMap_map, Files.search, List.map_filterMap]
    refine List.filterMap_congr fun found _ => ?_
    cases found <;> rfl

end DocSig.FileStore
