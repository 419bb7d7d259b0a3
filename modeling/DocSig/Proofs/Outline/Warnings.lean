import DocSig.Proofs.Outline.Names
import DocSig.Proofs.Outline.Resolution

/-!
The names that cannot be told, and the warnings about them.

Whether a class name can be told is decided by the nearest node around it that opens a scope: a
class gives `self` and `static` a meaning, and `parent` if it extends another one (`IsUntold`). The
table of names warns of the class references that hold such a name, in the order of the source, and
of nothing else (`warnings_ofOutline`).
-/

set_option autoImplicit false

namespace DocSig

/-- The class that a class extends, as it is written; the outer option tells classes from other
nodes. -/
def NodeKind.extended? : NodeKind → Option (Option Text)
  | .classLike _ _ parent => some parent
  | _ => none

namespace Lexical

/-- What the class around a node extends, if the nearest node around that opens a scope is a
class. -/
def classAround (above : List Entry) : Option (Option Text) :=
  (above.find? fun entry => entry.kind.opensScope).bind fun entry => entry.kind.extended?

/-- A name that nothing below `above` gives a meaning: the empty one, a word for the class around
where there is none, or the word for its parent where it has none. -/
def IsUntold (above : List Entry) (name : Text) : Prop :=
  name = [] ∨
    (name.lower = "self".toList ∨ name.lower = "static".toList) ∧ classAround above = none ∨
    name.lower = "parent".toList ∧ (classAround above).join = none

instance (above : List Entry) (name : Text) : Decidable (IsUntold above name) := by
  unfold IsUntold
  infer_instance

/-- The warning that a place gives rise to. -/
def warningAt (place : Place) : Option UnresolvedName :=
  match place.entry.kind with
  | .reference name => if IsUntold place.above name then some ⟨name, place.entry.line⟩ else none
  | _ => none

theorem classAround_opens {entry : Entry} (opens : entry.kind.opensScope = true)
    (above : List Entry) : classAround (entry :: above) = entry.kind.extended? := by
  rw [classAround, List.find?_cons_of_pos (by simp [opens]), Option.bind_some]

theorem classAround_through {entry : Entry} (plain : entry.kind.opensScope = false)
    (above : List Entry) : classAround (entry :: above) = classAround above := by
  rw [classAround, List.find?_cons_of_neg (by simp [plain]), classAround]

/-- The class that a scope knows is the one around, with a parent if that extends another one. -/
theorem classOf_parent (above : List Entry) (before : List Place) :
    (classOf above before).map (fun context => context.parent.isSome) =
      (classAround above).map Option.isSome := by
  induction above with
  | nil => rfl
  | cons entry above ih =>
      unfold classOf
      split
      case h_1 class_ name parent kind =>
        rw [classAround_opens (by rw [kind]; rfl), kind]
        simp [NodeKind.extended?]
      case h_2 name kind =>
        rw [classAround_opens (by rw [kind]; rfl), kind]
        rfl
      case h_3 name kind =>
        rw [classAround_opens (by rw [kind]; rfl), kind]
        rfl
      case h_4 noClass noSpace noFunction =>
        have plain : entry.kind.opensScope = false := by
          unfold NodeKind.opensScope
          split
          · next name kind => exact absurd kind (noSpace name)
          · next class_ name parent kind => exact absurd kind (noClass class_ name parent)
          · next name kind => exact absurd kind (noFunction name)
          · rfl
        rw [classAround_through plain, ih]

/-- Where a name is untold, looking around decides. -/
theorem isUntold_iff (before : List Place) (above : List Entry) (name : Text) :
    IsUntold above name ↔ name = [] ∨ IsUnresolvable (scopeAt before above) name := by
  have same := classOf_parent above before
  have outside : classAround above = none ↔ classOf above before = none := by
    rw [← Option.map_eq_none_iff, ← same, Option.map_eq_none_iff]
  have orphaned : (classAround above).join = none ↔
      (classOf above before).bind ClassContext.parent = none := by
    cases around : classAround above with
    | none => simp [outside.mp around]
    | some parent =>
        rw [around] at same
        obtain ⟨context, here, parents⟩ := Option.map_eq_some_iff.mp same
        rw [here, Option.bind_some, Option.join_some, ← Option.not_isSome_iff_eq_none, ← parents,
          Option.not_isSome_iff_eq_none]
  unfold IsUntold IsUnresolvable
  rw [outside, orphaned]
  rfl

/-- A class reference is warned of exactly if its name cannot be told. -/
theorem warning_ofReference (scope : Scope) (id line : Nat) (name : Text)
    (warning : UnresolvedName) :
    (NameTable.ofReference scope id line name).warning = some warning ↔
      (name = [] ∨ IsUnresolvable scope name) ∧ ⟨name, line⟩ = warning := by
  unfold NameTable.ofReference
  split
  case h_1 written unresolved =>
    obtain ⟨rfl, unknown⟩ := resolve_eq_unresolved_iff.mp unresolved
    simp [unknown]
  all_goals
    next told =>
      refine iff_of_false nofun fun untold => ?_
      rw [resolve_eq_unresolved_iff.mpr ⟨rfl, untold.1⟩] at told
      cases told

/-- One place: what the walk notes at it warns of an untold name and of nothing else. -/
theorem warning_namingAt (before : List Place) (place : Place) :
    (namingAt (scopeAt before place.above) place.entry).bind Naming.warning = warningAt place := by
  unfold namingAt warningAt
  cases kind : place.entry.kind with
  | reference name =>
      dsimp only
      refine Option.ext fun warning => ?_
      rw [Option.bind_some, warning_ofReference, ← isUntold_iff before place.above name,
        Option.ite_none_right_eq_some, Option.some.injEq]
  | function function name => cases function <;> rfl
  | _ => rfl

/-- A warning cites the name that is kept. -/
theorem name_of_warning {scope : Scope} {entry : Entry} {naming : Naming}
    {warning : UnresolvedName} (noted : namingAt scope entry = some naming)
    (about : naming.warning = some warning) : naming.name = some warning.name := by
  unfold namingAt at noted
  split at noted
  case h_8 name kind =>
    cases noted
    unfold NameTable.ofReference at about ⊢
    split at about
    all_goals
      cases about
    rfl
  all_goals
    cases noted
  all_goals
    cases about

theorem warnings_namingsFrom (before places : List Place) :
    (namingsFrom before places).filterMap Naming.warning = places.filterMap warningAt := by
  -- along the source; what stands before a place plays no part in whether a name can be told
  induction places generalizing before with
  | nil => rfl
  | cons place places ih =>
      have here := warning_namingAt before place
      rw [namingsFrom, List.filterMap_append, ih, List.filterMap_cons, ← here]
      cases noted : namingAt (scopeAt before place.above) place.entry with
      | none => rfl
      | some naming =>
          cases warned : naming.warning with
          | none => simp [warned]
          | some warning => simp [warned]

end Lexical

open Lexical

/-- The warnings about an outline are those about the class references that hold an untold name,
in the order of the source; each such name stays as it is written. -/
theorem warnings_ofOutline {outline : Outline} (grown : outline.Grown)
    (bare : LeavesBare outline.root.preorder) :
    (NameTable.ofOutline outline).warnings = outline.places.filterMap warningAt ∧
      ∀ place ∈ outline.places, ∀ warning ∈ warningAt place,
        (NameTable.ofOutline outline).name? place.entry.id = some warning.name := by
  refine ⟨?_, ?_⟩
  · rw [NameTable.warnings, namings_ofOutline grown bare, warnings_namingsFrom]
  · intro place found warning warned
    obtain ⟨before, after, split⟩ := List.append_of_mem found
    have noted := find?_place grown bare split
    have here := warning_namingAt before place
    rw [warned] at here
    obtain ⟨naming, found, about⟩ := Option.bind_eq_some_iff.mp here
    rw [NameTable.name?, noted, found, Option.bind_some]
    exact name_of_warning found about

/-- A class without a parent, with a function and a class on the spot within its method, and a
nameless reference behind it. -/
def unsettledOutline : Outline :=
  ((((((((Outline.empty.push 0 ⟨.classLike .plain "Foo".toList none, 2, none⟩).push 1
    ⟨.function .method "make".toList, 3, none⟩).push 2
    ⟨.reference "Parent".toList, 3, none⟩).push 2
    ⟨.function .free "inner".toList, 4, none⟩).push 4
    ⟨.reference "SELF".toList, 4, none⟩).push 4
    ⟨.classLike .anonymous anonymousClassName (some "Base".toList), 5, none⟩).push 6
    ⟨.reference "parent".toList, 5, none⟩).push 2
    ⟨.reference "static".toList, 6, none⟩).push 0
    ⟨.reference [], 8, none⟩

theorem unsettledOutline_grown : unsettledOutline.Grown :=
  .push 0 _ (.push 2 _ (.push 6 _ (.push 4 _ (.push 4 _ (.push 2 _ (.push 2 _ (.push 1 _
    (.push 0 _ .empty (by decide)) (by decide)) (by decide)) (by decide)) (by decide)) (by decide))
    (by decide)) (by decide)) (by decide)

theorem warnings_unsettledOutline :
    unsettledOutline.Grown ∧ LeavesBare unsettledOutline.root.preorder ∧
      (NameTable.ofOutline unsettledOutline).warnings =
        [⟨"Parent".toList, 3⟩, ⟨"SELF".toList, 4⟩, ⟨[], 8⟩] ∧
      (NameTable.ofOutline unsettledOutline).name? 5 = some "SELF".toList := by
  have bare : LeavesBare unsettledOutline.root.preorder := by decide
  obtain ⟨warned, kept⟩ := warnings_ofOutline unsettledOutline_grown bare
  have within : unsettledOutline.places[5] ∈ unsettledOutline.places := List.getElem_mem _
  exact ⟨unsettledOutline_grown, bare, warned.trans (by decide +kernel),
    kept _ within ⟨"SELF".toList, 4⟩ (by decide +kernel)⟩

end DocSig
