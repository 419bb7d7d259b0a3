import DocSig.Proofs.Extraction.Independence
import DocSig.Proofs.Outline.Linking
import DocSig.Proofs.Outline.Numbering
import DocSig.Proofs.Outline.Steps
import DocSig.Php.Parser
import DocSig.Proofs.Php.Outline
import DocSig.Scan

/-!
The outline of a source is well formed, and each of its methods goes by the name of its class.

What stands below what is decided on the unnumbered trees (`Php.Below`) and read off the numbered
ones, which have the same nodes below the same nodes. Since a method stands directly below a class
and a class always has a name, the name of a method never falls back on its own.
-/

set_option autoImplicit false

namespace DocSig

open Lexical Outline Rose

namespace Outline

/-- An outline as a source gives it. -/
structure WellFormed (outline : Outline) : Prop where
  /-- The outline grew node by node, each node with the next number. -/
  grown : outline.Grown
  /-- The first node is the program, and there is no other. -/
  program : ∀ entry ∈ outline.root.labels, entry.kind = .program ↔ entry.id = 0
  /-- The parent of a method is a class. -/
  methods : ∀ entry ∈ outline.root.labels, entry.kind.isMethod = true →
    ∃ parent, (ParentTable.ofOutline outline).parent? entry.id = some parent.label.id ∧
      outline.find? parent.label.id = some parent ∧ parent.label.kind.isClassLike = true
  /-- The children of a class are class names and methods. -/
  members : ∀ tree ∈ outline.root.preorder, tree.label.kind.isClassLike = true →
    ∀ child ∈ tree.children, (child.label.kind.isReference || child.label.kind.isMethod) = true
  /-- Class names and imports have nothing below them. -/
  leaves : LeavesBare outline.root.preorder
  /-- No list of imports is empty. -/
  imports : ∀ entry ∈ outline.root.labels, ∀ list, entry.kind = .imports list → list ≠ []
  /-- Only functions have comments. -/
  comments : ∀ entry ∈ outline.root.labels, entry.comment.isSome = true →
    ∃ kind name, entry.kind = .function kind name
  /-- Classes without a name of their own go by the common one. -/
  anonymous : ∀ entry ∈ outline.root.labels, ∀ name parent,
    entry.kind = .classLike .anonymous name parent → name = anonymousClassName
  /-- Numbers are given in the order of the preorder walk. -/
  order : outline.root.labels.map Entry.id = List.range outline.size
  /-- The nodes below a node have the numbers right behind its own. -/
  descendants : ∀ tree ∈ outline.root.preorder, (labelsAll tree.children).map Entry.id =
    List.range' (tree.label.id + 1) (labelsAll tree.children).length

variable {trees : List (Rose Node)}

/-- A node of the outline is the program or one of the trees' nodes, with a number behind it. -/
theorem mem_labels_ofForest {entry : Entry} (found : entry ∈ (ofForest trees).root.labels) :
    entry = ⟨program, 0⟩ ∨ entry.toNode ∈ labelsAll trees ∧ 0 < entry.id := by
  have root : (ofForest trees).root = .branch ⟨program, 0⟩ (numberAll 1 trees).1 := rfl
  rw [root, labels_branch, List.mem_cons] at found
  rcases found with same | below
  · exact Or.inl same
  · have numbered := List.mem_map_of_mem (f := Entry.id) below
    rw [ids_numberAll, List.mem_range'_1] at numbered
    obtain ⟨sub, here, rfl⟩ := List.mem_map.mp below
    obtain ⟨plain, inside, start, rfl⟩ := eq_numberAll_of_mem trees 1 sub here
    refine Or.inr ⟨?_, numbered.1⟩
    rw [label_number]
    exact List.mem_map_of_mem inside

/-- Below a node of the outline stand the nodes that stood below it in the trees. -/
theorem admits_of_mem_ofForest (below : Php.Below .program trees) {tree child : Rose Entry}
    (found : tree ∈ (ofForest trees).root.preorder) (inside : child ∈ tree.children) :
    tree.label.kind.admits child.label.kind = true := by
  obtain ⟨plain, here, start, rfl⟩ := eq_number_of_mem (.branch program trees) 0 tree found
  cases plain with
  | branch node children =>
      obtain ⟨other, under, same⟩ := label_of_mem_numberAll inside
      rw [same]
      rw [preorder, List.mem_cons] at here
      rcases here with root | deeper
      · cases root
        exact below.admitted other under
      · exact below.placed _ deeper other under

theorem ofForest_wellFormed (below : Php.Below .program trees) : (ofForest trees).WellFormed := by
  have grown := ofForest_grown trees
  have sound : ∀ entry ∈ (ofForest trees).root.labels, entry.toNode.Sound := by
    intro entry found
    rcases mem_labels_ofForest found with rfl | ⟨inside, -⟩
    · exact Php.program_sound
    · exact below.sound_of_mem inside
  constructor
  case grown => exact grown
  case program =>
    intro entry found
    rcases mem_labels_ofForest found with rfl | ⟨inside, later⟩
    · exact iff_of_true rfl rfl
    · exact iff_of_false (below.not_program inside) (Nat.ne_of_gt later)
  case methods =>
    intro entry found method
    rcases eq_or_mem_children _ entry found with rfl | ⟨parent, here, child, inside, rfl⟩
    · cases method
    · have admitted := admits_of_mem_ofForest below here inside
      exact ⟨parent, ParentTable.parent?_of_mem_children grown here inside,
        grown.find?_of_mem here, NodeKind.isClassLike_of_admits admitted method⟩
  case members =>
    intro tree found classLike child inside
    exact NodeKind.member_of_admits (admits_of_mem_ofForest below found inside) classLike
  case leaves =>
    intro tree found leaf
    cases empty : tree.children with
    | nil => rfl
    | cons child children =>
        have admitted := admits_of_mem_ofForest below found (empty ▸ List.mem_cons_self)
        rw [NodeKind.admits_leaf leaf] at admitted
        cases admitted
  case imports => exact fun entry found => (sound entry found).imports
  case comments =>
    intro entry found commented
    have function := (sound entry found).comment commented
    cases declares : entry.kind with
    | function kind name => exact ⟨kind, name, rfl⟩
    | _ =>
        rw [declares] at function
        cases function
  case anonymous => exact fun entry found => (sound entry found).anonymous
  case order => exact ids_ofForest trees
  case descendants =>
    intro tree found
    have numbered := ids_of_mem_ofForest found
    cases tree with
    | branch entry children =>
        rw [labels_branch, List.map_cons, List.length_cons, List.range'_succ] at numbered
        exact (List.cons.inj numbered).2

end Outline

namespace Extraction

variable {outline : Outline} {parents : ParentTable} {names : NameTable} {read : CommentReader}
variable {qualified : Bool}

def outcomeName : Except Diagnostic Signature → Text
  | .ok signature => signature.name
  | .error diagnostic => diagnostic.declaration

theorem name_of_ofDocblock {name : Text} {doc : Docblock} {signature : Signature}
    (fits : Signature.ofDocblock name doc = .ok signature) : signature.name = name := by
  unfold Signature.ofDocblock at fits
  split at fits
  · cases fits; rfl
  · cases fits; rfl
  · cases fits

theorem name_told (scope : Option Scope) (signature : Signature) :
    (told qualified scope signature).name = signature.name := by
  unfold told
  split
  · split <;> rfl
  · rfl

/-- A signature and a diagnostic bear the same name, that of their function. -/
theorem outcomeName_eq {node : Entry} {given : Except Diagnostic Signature} {kind : FunctionKind}
    (contributes : Contributes outline parents names read qualified node given)
    (function : node.kind.function? = some kind) :
    outcomeName given = signatureName outline parents names node kind := by
  cases contributes with
  | signature other usable reads fits =>
      rw [function] at other
      cases other
      rw [outcomeName, name_told, name_of_ofDocblock fits]
  | diagnostic other usable fails =>
      rw [function] at other
      cases other
      rfl

/-- What a documented method gives is named by the class around it, how the method is called, and
the method's own name. -/
def NamedByClass (outline : Outline) (node : Entry) (given : Except Diagnostic Signature) : Prop :=
  ∀ kind name, node.kind = .function kind name → kind ≠ .free →
    ∃ parent className, (ParentTable.ofOutline outline).parent? node.id = some parent.label.id ∧
      outline.find? parent.label.id = some parent ∧ parent.label.kind.isClassLike = true ∧
      (NameTable.ofOutline outline).name? parent.label.id = some className ∧
      outcomeName given = className ++ separator kind ++ name

/-- A class has a name in the table. -/
theorem name?_class (grown : outline.Grown) (bare : LeavesBare outline.root.preorder)
    {tree : Rose Entry} (found : tree ∈ outline.root.preorder)
    (classLike : tree.label.kind.isClassLike = true) :
    ∃ className, (NameTable.ofOutline outline).name? tree.label.id = some className := by
  cases tree with
  | branch entry children =>
      obtain ⟨scope, within⟩ :=
        NameTable.namings_of_mem_preorder outline.root Scope.outermost bare _ found
      cases kind : entry.kind with
      | classLike classKind name parent =>
          have noted : ⟨entry.id, some (NameTable.contextOf scope classKind name parent).name,
              none, none⟩ ∈ (NameTable.ofOutline outline).namings := by
            refine within ?_
            rw [NameTable.walk_branch, kind]
            simp [isLeaf, namingAt, kind]
          have search := NameTable.find?_of_mem grown noted
          refine ⟨(NameTable.contextOf scope classKind name parent).name, ?_⟩
          show ((NameTable.ofOutline outline).find? entry.id).bind Naming.name = _
          rw [search, Option.bind_some]
      | _ => simp [label, kind, NodeKind.isClassLike] at classLike

/-- In a well-formed outline a method's outcome is never named by the method alone. -/
theorem namedByClass (shaped : outline.WellFormed) {node : Entry}
    (found : node ∈ outline.root.labels) {given : Except Diagnostic Signature}
    (contributes : Contributes outline (.ofOutline outline) (.ofOutline outline) read qualified
      node given) : NamedByClass outline node given := by
  intro kind name declares member
  have method : node.kind.isMethod = true := by
    rw [declares]
    cases kind with
    | free => exact absurd rfl member
    | method => rfl
    | staticMethod => rfl
  obtain ⟨parent, above, search, classLike⟩ := shaped.methods node found method
  obtain ⟨className, named⟩ :=
    name?_class shaped.grown shaped.leaves (List.mem_of_find?_eq_some search) classLike
  refine ⟨parent, className, above, search, classLike, named, ?_⟩
  have owner : className? outline (.ofOutline outline) (.ofOutline outline) node =
      some className := by
    simp [className?, above, search, classLike, declaredName, named]
  have function : node.kind.function? = some kind := by
    rw [declares]
    rfl
  rw [outcomeName_eq contributes function, signatureName_eq, if_neg member, owner, declares]
  rfl

end Extraction

namespace Php

variable {parser : Parser} {source : Text} {outline : Outline}

/-- A source that is read has a program without errors, and the program's statements give the
outline. -/
theorem outlineOf_eq_ok (read : outlineOf parser source = .ok outline) :
    ∃ program, parser source = some program ∧ program.errors = [] ∧
      outline = (SourceText.ofText source program.trivia).outline program.statements := by
  unfold outlineOf at read
  split at read
  · cases read
  · next program given =>
      split at read
      · cases read
      · next sound =>
          cases read
          exact ⟨program, given, sound, rfl⟩

/-- What a source gives is what its outline gives. -/
theorem ofSource_eq_ok_iff {qualified : Bool} {extraction : Extraction} :
    Extraction.ofSource parser qualified source = .ok extraction ↔
      ∃ outline, outlineOf parser source = .ok outline ∧
        .ofOutline outline qualified = extraction := by
  rw [Extraction.ofSource]
  cases read : outlineOf parser source with
  | error fault => exact ⟨nofun, nofun⟩
  | ok outline =>
      constructor
      · intro gives
        exact ⟨outline, rfl, Except.ok.inj gives⟩
      · rintro ⟨other, same, rfl⟩
        cases same
        rfl

open Extraction in
/-- Whatever the parser gives, the outline of a source that is read is well formed. So each
documented method gives an outcome that is named by its class, and the extraction consists of these
outcomes and those of the free functions. -/
theorem outlineOf_wellFormed (read : outlineOf parser source = .ok outline) :
    outline.WellFormed ∧ ∀ qualified, ∃ outcomes,
      Extraction.ofSource parser qualified source =
        .ok ⟨succeeded outcomes, failed outcomes, (NameTable.ofOutline outline).warnings⟩ ∧
      List.Forall₂ (NamedByClass outline) (documented outline) outcomes := by
  obtain ⟨program, -, -, made⟩ := outlineOf_eq_ok read
  have shaped : outline.WellFormed := by
    rw [made, SourceText.outline_eq_ofForest]
    exact ofForest_wellFormed (((SourceText.built_below _).ofStatements _).code rfl)
  refine ⟨shaped, fun qualified => ⟨Extraction.outcomes outline (.ofOutline outline)
    (.ofOutline outline) Docblock.parse qualified, ?_, ?_⟩⟩
  · exact ofSource_eq_ok_iff.mpr ⟨outline, read, ofTables_eq _ _ _ _ _⟩
  · have each : List.Forall₂ (Contributes outline (.ofOutline outline) (.ofOutline outline)
        Docblock.parse qualified) (documented outline)
        (Extraction.outcomes outline (.ofOutline outline) (.ofOutline outline) Docblock.parse
          qualified) := contributes_outcomes
    have member : ∀ node ∈ documented outline, node ∈ outline.root.labels := fun node found =>
      mem_map_postorder.mp (List.mem_filter.mp found).1
    refine ((List.forall₂_and_left _ _).mpr ⟨member, each⟩).imp ?_
    rintro node given ⟨found, contributes⟩
    exact namedByClass shaped found contributes

/-- A class with a method that makes a class of its own, with a static one. -/
def membersSource : Text :=
  "<?php class A \x7b
/** @return B */
function m() \x7b return new class \x7b
/** @return C */
static function k() \x7b\x7d \x7d; \x7d \x7d".toList

open Extraction in
theorem outlineOf_membersSource :
    ∃ outline outcomes, outlineOf Php.parser membersSource = .ok outline ∧ outline.WellFormed ∧
      (Extraction.ofSource Php.parser false membersSource).toOption.map Extraction.signatures =
        some (succeeded outcomes) ∧
      (succeeded outcomes).map Signature.name = ["class@anonymous::k".toList, "A->m".toList] ∧
      List.Forall₂ (NamedByClass outline) (documented outline) outcomes := by
  have names : (Extraction.ofSource Php.parser false membersSource).toOption.map
      (fun extraction => extraction.signatures.map Signature.name) =
        some ["class@anonymous::k".toList, "A->m".toList] := by decide +kernel
  cases read : outlineOf Php.parser membersSource with
  | error fault => simp [Extraction.ofSource, read, Except.toOption] at names
  | ok outline =>
      obtain ⟨shaped, outcomes⟩ := outlineOf_wellFormed read
      obtain ⟨outcomes, given, named⟩ := outcomes false
      rw [given] at names
      refine ⟨outline, outcomes, rfl, shaped, ?_, Option.some.inj names, named⟩
      rw [given]
      rfl

end Php

end DocSig
