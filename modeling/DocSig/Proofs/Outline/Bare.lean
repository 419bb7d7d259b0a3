import DocSig.Proofs.Outline.Steps
import DocSig.Proofs.Text.Scan

/-!
Names without line ends and quotes.

Of an outline whose nodes have bare names, every name in the table of names is bare, and so is
every name that a scope in it can tell (`Scope.Bare`): full names are put together from what is
written in the source.
-/

set_option autoImplicit false

namespace DocSig

def NodeKind.Bare : NodeKind → Prop
  | .program | .block => True
  | .space name => ∀ space ∈ name, DocSig.Bare space
  | .imports list => ∀ item ∈ list, DocSig.Bare item.short ∧ DocSig.Bare item.target
  | .classLike _ name parent => DocSig.Bare name ∧ ∀ extended ∈ parent, DocSig.Bare extended
  | .function _ name | .reference name => DocSig.Bare name

theorem NodeKind.bare_name? {kind : NodeKind} (given : kind.Bare) :
    ∀ name ∈ kind.name?, DocSig.Bare name := by
  intro name found
  cases kind with
  | program => cases found
  | block => cases found
  | imports list => cases found
  | space space => exact given name found
  | classLike class_ own parent => cases found; exact given.1
  | function function own => cases found; exact given
  | reference own => cases found; exact given

theorem NodeKind.bare_ownName {kind : NodeKind} (given : kind.Bare) :
    DocSig.Bare (kind.name?.getD []) := by
  cases written : kind.name? with
  | none => exact bare_nil
  | some name => exact bare_name? given name written

def ClassContext.Bare (context : ClassContext) : Prop :=
  DocSig.Bare context.name ∧ ∀ parent ∈ context.parent, DocSig.Bare parent

/-- No line end and no quote stands in what a scope makes names from. -/
structure Scope.Bare (scope : Scope) : Prop where
  space : ∀ space ∈ scope.space, DocSig.Bare space
  targets : ∀ item ∈ scope.imports, DocSig.Bare item.2
  enclosing : ∀ context ∈ scope.enclosing, context.Bare

namespace Scope

variable {scope : Scope} {name : Text}

theorem bare_inSpace {name : Option Text} (named : ∀ space ∈ name, DocSig.Bare space) :
    (inSpace name).Bare :=
  ⟨named, nofun, nofun⟩

theorem Bare.inClass (given : scope.Bare) {context : ClassContext} (around : context.Bare) :
    (scope.inClass context).Bare :=
  ⟨given.space, given.targets, fun _ found => Option.some.inj found ▸ around⟩

theorem Bare.inFunction (given : scope.Bare) : scope.inFunction.Bare :=
  ⟨given.space, given.targets, nofun⟩

theorem Bare.addImports (given : scope.Bare) {list : List Import}
    (each : ∀ item ∈ list, DocSig.Bare item.target) : (scope.addImports list).Bare := by
  induction list generalizing scope with
  | nil => exact given
  | cons item list ih =>
      obtain ⟨first, others⟩ := List.forall_mem_cons.mp each
      exact ih ⟨given.space, List.forall_mem_cons.mpr ⟨first, given.targets⟩, given.enclosing⟩
        others

theorem Bare.qualify (given : scope.Bare) (named : DocSig.Bare name) :
    DocSig.Bare (scope.qualify name) := by
  unfold Scope.qualify
  split
  case h_1 space here =>
    exact bare_append.mpr ⟨given.space space here, bare_cons.mpr ⟨by decide, named⟩⟩
  case h_2 => exact named

theorem Bare.resolvePlain (given : scope.Bare) (named : DocSig.Bare name) :
    DocSig.Bare (scope.resolvePlain name) := by
  unfold Scope.resolvePlain
  dsimp only
  split
  case h_1 target found =>
    obtain ⟨later, earlier, whole, -⟩ := List.lookup_eq_some_iff.mp found
    have bareTarget := given.targets (_, target) (whole ▸ List.mem_append_cons_self)
    exact bare_append.mpr ⟨bareTarget, named.sublist (List.dropWhile_sublist _)⟩
  case h_2 => exact given.qualify named

/-- Whatever a bare name stands for has a bare name. -/
theorem Bare.resolve (given : scope.Bare) (named : DocSig.Bare name) :
    DocSig.Bare (scope.resolve name).name := by
  unfold Scope.resolve
  split
  case isTrue => exact bare_nil
  split
  case isTrue =>
    split
    case h_1 context here => exact (given.enclosing context here).1
    case h_2 => exact named
  split
  case isTrue =>
    split
    case h_1 parent found =>
      obtain ⟨context, here, same⟩ := Option.bind_eq_some_iff.mp found
      exact (given.enclosing context here).2 parent same
    case h_2 => exact named
  split
  case isTrue => exact named
  split
  case h_1 rest found =>
    rw [Text.eq_append_of_after? found] at named
    exact (bare_append.mp named).2
  split
  case isTrue => exact given.qualify (named.sublist (List.drop_sublist _ _))
  case isFalse => exact given.resolvePlain named

theorem Bare.contextOf (given : scope.Bare) (kind : ClassKind) {parent : Option Text}
    (named : DocSig.Bare name) (parents : ∀ extended ∈ parent, DocSig.Bare extended) :
    (NameTable.contextOf scope kind name parent).Bare := by
  refine ⟨?_, ?_⟩
  · unfold NameTable.contextOf
    dsimp only
    split
    · exact named
    · exact given.qualify named
  · intro extended found
    obtain ⟨written, here, rfl⟩ := Option.map_eq_some_iff.mp found
    exact given.resolve (parents written here)

end Scope

structure Naming.Bare (naming : Naming) : Prop where
  name : ∀ name ∈ naming.name, DocSig.Bare name
  scope : ∀ scope ∈ naming.scope, scope.Bare

namespace NameTable

open Lexical

variable {scope : Scope} {entry : Entry}

theorem bare_namingAt (given : scope.Bare) (named : entry.kind.Bare) :
    ∀ naming ∈ namingAt scope entry, naming.Bare := by
  intro naming found
  unfold namingAt at found
  cases kind : entry.kind with
  | program => rw [kind] at found; cases found
  | block => rw [kind] at found; cases found
  | imports list => rw [kind] at found; cases found
  | space name =>
      rw [kind] at found named
      cases found
      exact ⟨named, nofun⟩
  | classLike class_ name parent =>
      rw [kind] at found named
      cases found
      exact ⟨fun _ same => Option.some.inj same ▸ (given.contextOf class_ named.1 named.2).1, nofun⟩
  | function function name =>
      rw [kind] at found named
      cases function with
      | free =>
          cases found
          exact ⟨fun _ same => Option.some.inj same ▸ given.qualify named,
            fun _ same => Option.some.inj same ▸ given.inFunction⟩
      | method =>
          cases found
          exact ⟨fun _ same => Option.some.inj same ▸ named,
            fun _ same => Option.some.inj same ▸ given⟩
      | staticMethod =>
          cases found
          exact ⟨fun _ same => Option.some.inj same ▸ named,
            fun _ same => Option.some.inj same ▸ given⟩
  | reference name =>
      rw [kind] at found named
      cases found
      have told := given.resolve named
      unfold ofReference
      split
      all_goals
        next resolved =>
          rw [resolved] at told
          exact ⟨fun _ same => Option.some.inj same ▸ told, nofun⟩

theorem bare_entered (given : scope.Bare) (named : entry.kind.Bare) :
    (entered scope entry).Bare := by
  unfold entered
  split
  case h_1 name kind =>
    rw [kind] at named
    exact Scope.bare_inSpace named
  case h_2 class_ name parent kind =>
    rw [kind] at named
    exact given.inClass (given.contextOf class_ named.1 named.2)
  case h_3 => exact given.inFunction
  case h_4 => exact given

theorem bare_importList (named : entry.kind.Bare) :
    ∀ item ∈ entry.kind.importList, DocSig.Bare item.target := by
  intro item found
  unfold NodeKind.importList at found
  split at found
  case h_1 list kind =>
    rw [kind] at named
    exact (named item found).2
  case h_2 => cases found

/-- Over nodes with bare names every step keeps a scope bare. -/
theorem bare_kept : Kept Scope.Bare fun entry => entry.kind.Bare where
  entered _ _ given named := bare_entered given named
  imports _ _ given named := given.addImports (bare_importList named)

variable {outline : Outline}

theorem bare_find? (named : ∀ entry ∈ outline.root.labels, entry.kind.Bare) {id : Nat}
    {naming : Naming} (found : (ofOutline outline).find? id = some naming) : naming.Bare := by
  have walked := bare_kept.walk outline.root Scope.outermost ⟨nofun, nofun, nofun⟩ named
  obtain ⟨inner, entry, given, fits, noted⟩ := walked.2 naming (List.mem_of_find?_eq_some found)
  exact bare_namingAt given fits naming noted

/-- Every name in the table is bare. -/
theorem bare_name? (named : ∀ entry ∈ outline.root.labels, entry.kind.Bare) {id : Nat} :
    ∀ name ∈ (ofOutline outline).name? id, DocSig.Bare name := by
  intro name found
  obtain ⟨naming, here, same⟩ := Option.bind_eq_some_iff.mp found
  exact (bare_find? named here).name name same

/-- Every scope in the table is bare. -/
theorem bare_scope? (named : ∀ entry ∈ outline.root.labels, entry.kind.Bare) {id : Nat} :
    ∀ scope ∈ (ofOutline outline).scope? id, scope.Bare := by
  intro scope found
  obtain ⟨naming, here, same⟩ := Option.bind_eq_some_iff.mp found
  exact (bare_find? named here).scope scope same

end NameTable

end DocSig
