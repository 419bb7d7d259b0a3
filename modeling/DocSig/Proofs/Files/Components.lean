import DocSig.Files.Tree
import Mathlib.Data.List.Basic

/-!
Paths compared step by step.

A path that goes on from a folder has the steps of the folder and then one step for each name
(`Path.components_follow`). So paths that go on from one folder compare as the names do that lead
down from it, whatever bytes the names hold beside the slash (`Path.key_follow_lt`).
-/

set_option autoImplicit false

namespace DocSig

open DocSig.Path (slash dot)

structure IsName (name : Bytes) : Prop where
  nonempty : name ≠ []
  unbroken : slash ∉ name
  notHere : name ≠ [dot]
  notUp : name ≠ [dot, dot]

instance (name : Bytes) : Decidable (IsName name) :=
  decidable_of_iff (name ≠ [] ∧ slash ∉ name ∧ name ≠ [dot] ∧ name ≠ [dot, dot])
    ⟨fun ⟨nonempty, unbroken, here, up⟩ => ⟨nonempty, unbroken, here, up⟩,
      fun named => ⟨named.nonempty, named.unbroken, named.notHere, named.notUp⟩⟩

namespace Path

theorem firstComponent_name {name : Bytes} (named : IsName name) :
    firstComponent name = .name name := by
  rw [firstComponent, if_neg named.nonempty, if_neg named.notHere, if_neg named.notUp]

theorem laterComponent?_name {name : Bytes} (named : IsName name) :
    laterComponent? name = some (.name name) := by
  rw [laterComponent?, if_neg (not_or.mpr ⟨named.nonempty, named.notHere⟩), if_neg named.notUp]

theorem components_of_splitOn {path : Path} {first : Bytes} {others : List Bytes}
    (some_ : path ≠ []) (cut : path.splitOn slash = first :: others) :
    path.components = firstComponent first :: others.filterMap laterComponent? := by
  unfold components
  rw [cut]
  split
  · next none_ => cases none_
  · next alone =>
      have whole : [slash].intercalate (path.splitOn slash) = path :=
        List.intercalate_splitOn slash
      rw [cut, alone] at whole
      exact absurd whole.symm some_
  · next same =>
      cases same
      rfl

section

variable {folder : Path} {route : Route}

theorem splitOn_route (some_ : route ≠ []) (named : ∀ name ∈ route, IsName name) :
    ([slash].intercalate route).splitOn slash = route :=
  List.splitOn_intercalate slash (fun name listed => (named name listed).unbroken) some_

theorem head?_route (some_ : route ≠ []) (named : ∀ name ∈ route, IsName name) :
    ([slash].intercalate route).head? ≠ some slash := by
  intro leads
  obtain ⟨rest, whole⟩ := List.head?_eq_some_iff.mp leads
  have cut := splitOn_route some_ named
  have start := List.splitOn_append_cons_self (a := slash) [] rest
  rw [List.nil_append] at start
  rw [whole, start, List.splitOn_nil, List.singleton_append] at cut
  exact (named [] (cut ▸ List.mem_cons_self)).nonempty rfl

theorem filterMap_laterComponent? (named : ∀ name ∈ route, IsName name) :
    route.filterMap laterComponent? = route.map .name := by
  rw [← List.filterMap_eq_map]
  exact List.filterMap_congr fun name listed => laterComponent?_name (named name listed)

theorem head?_follow (some_ : folder ≠ []) (named : ∀ name ∈ route, IsName name) :
    (folder.follow route).head? = folder.head? := by
  obtain ⟨first, others, rfl⟩ := List.exists_cons_of_ne_nil some_
  unfold follow
  split
  · rfl
  · next down =>
      rw [join, if_neg (head?_route down named)]
      split <;> rfl

theorem follow_ne_nil (some_ : folder ≠ []) (named : ∀ name ∈ route, IsName name) :
    folder.follow route ≠ [] := by
  intro none_
  have starts := head?_follow some_ named
  rw [none_] at starts
  exact some_ (List.head?_eq_none_iff.mp starts.symm)

/-- Behind the parts of the folder stand the names on the route. If the folder ends in a slash, the
empty part behind that is none of the longer path. -/
theorem splitOn_follow (some_ : folder ≠ []) (down : route ≠ [])
    (named : ∀ name ∈ route, IsName name) :
    ∃ first others, (folder.follow route).splitOn slash = first :: (others ++ route) ∧
      (folder.splitOn slash = first :: others ∨
        folder.splitOn slash = first :: (others ++ [[]])) := by
  rw [follow, if_neg down, join, if_neg (head?_route down named)]
  split
  · next ends =>
      obtain ⟨start, rfl⟩ := List.getLast?_eq_some_iff.mp (ends.resolve_left (by simp [some_]))
      obtain ⟨first, others, parts⟩ :=
        List.exists_cons_of_ne_nil (List.splitOn_ne_nil slash start)
      refine ⟨first, others, ?_, Or.inr ?_⟩
      · rw [List.append_assoc, List.singleton_append, List.splitOn_append_cons_self, parts,
          splitOn_route down named, List.cons_append]
      · rw [List.splitOn_append_cons_self, parts, List.splitOn_nil, List.cons_append]
  · obtain ⟨first, others, parts⟩ :=
      List.exists_cons_of_ne_nil (List.splitOn_ne_nil slash folder)
    refine ⟨first, others, ?_, Or.inl parts⟩
    rw [List.splitOn_append_cons_self, parts, splitOn_route down named, List.cons_append]

/-- A path that goes on from a folder has the steps of the folder and those behind it. -/
theorem components_follow (named : ∀ name ∈ route, IsName name) :
    (folder.follow route).components = folder.components ++ route.map .name := by
  by_cases down : route = []
  · rw [follow, if_pos down, down, List.map_nil, List.append_nil]
  by_cases empty : folder = []
  · obtain ⟨name, others, rfl⟩ := List.exists_cons_of_ne_nil down
    have first := named name List.mem_cons_self
    have later := List.forall_mem_of_forall_mem_cons named
    have alone : follow [] (name :: others) = [slash].intercalate (name :: others) := by
      rw [follow, if_neg down, join, if_neg (head?_route down named)]
      exact if_pos (Or.inl rfl)
    have more : [slash].intercalate (name :: others) ≠ [] := fun none_ => by
      have whole := splitOn_route down named
      rw [none_, List.splitOn_nil] at whole
      exact first.nonempty (List.cons.inj whole).1.symm
    rw [empty, alone, components_of_splitOn more (splitOn_route down named),
      firstComponent_name first, filterMap_laterComponent? later]
    rfl
  · obtain ⟨first, others, longer, shorter⟩ := splitOn_follow empty down named
    rw [components_of_splitOn (follow_ne_nil empty named) longer, List.filterMap_append,
      filterMap_laterComponent? named]
    rcases shorter with same | slashed
    · rw [components_of_splitOn empty same, List.cons_append]
    · rw [components_of_splitOn empty slashed, List.filterMap_append]
      simp [laterComponent?]

end

/-- Different routes below one folder have different paths. -/
theorem follow_inj {folder : Path} {route other : Route} (named : ∀ name ∈ route, IsName name)
    (names : ∀ name ∈ other, IsName name) (same : folder.follow route = folder.follow other) :
    route = other := by
  have steps := congrArg components same
  rw [components_follow named, components_follow names, List.append_cancel_left_eq] at steps
  exact List.map_injective_iff.mpr (fun _ _ => Component.name.inj) steps

theorem key_follow {folder : Path} {route : Route} (named : ∀ name ∈ route, IsName name) :
    (folder.follow route).key = folder.key ++ route.map (3 :: ·) := by
  rw [key, components_follow named, List.map_append, List.map_map]
  rfl

theorem follow_eq_of_key_eq {folder : Path} {route other : Route}
    (named : ∀ name ∈ route, IsName name) (names : ∀ name ∈ other, IsName name)
    (same : (folder.follow route).key = (folder.follow other).key) :
    folder.follow route = folder.follow other := by
  rw [key_follow named, key_follow names, List.append_cancel_left_eq] at same
  exact congrArg folder.follow
    (List.map_injective_iff.mpr (fun _ _ less => (List.cons.inj less).2) same)

/-- Below one folder the order of paths is that of the names which lead down. -/
theorem key_follow_lt {folder : Path} {route other : Route} (named : ∀ name ∈ route, IsName name)
    (names : ∀ name ∈ other, IsName name) (before : route < other) :
    (folder.follow route).key < (folder.follow other).key := by
  rw [key_follow named, key_follow names]
  refine List.append_left_lt (List.map_lt (fun _ _ less => ?_) before)
  exact List.cons_lt_cons_iff.mpr (.inr ⟨rfl, less⟩)

end Path

end DocSig
