import DocSig.Extraction
import DocSig.Proofs.Outline.Grown
import DocSig.Proofs.Outline.Walk

/-!
What an extraction holds: one outcome for each documented function, in the order of the recursive
walk that visits children before their parent.

`Contributes` says what a documented function gives by itself, and the walk with a stack collects
exactly these outcomes.
-/

set_option autoImplicit false

namespace DocSig

namespace Extraction

section

variable (outline : Outline) (parents : ParentTable) (names : NameTable) (read : CommentReader)
variable (qualified : Bool)

/-- A function with a comment that is not blank. -/
def isDocumented (node : Entry) : Bool :=
  node.kind.function?.isSome && (usableComment node).isSome

/-- The documented functions of an outline, each behind those within it. -/
def documented : List Entry := (outline.root.postorder.map Rose.label).filter isDocumented

/-- The name of the class that a node is a member of. -/
def className? (node : Entry) : Option Text :=
  match (parents.parent? node.id).bind outline.find? with
  | some parent =>
    if parent.label.kind.isClassLike then some (declaredName names parent.label) else none
  | none => none

/-- A signature as it is handed out: with class names told in full, if that is asked for and the
scope is known. -/
def told (scope : Option Scope) (signature : Signature) : Signature :=
  match scope with
  | some scope => if qualified then signature.mapTypes (qualifyType scope) else signature
  | none => signature

/-- What a documented function contributes by itself. -/
inductive Contributes (node : Entry) : Except Diagnostic Signature → Prop
  | signature {kind : FunctionKind} {comment : Text} {doc : Docblock} {signature : Signature} :
      node.kind.function? = some kind → usableComment node = some comment →
      read comment = .ok doc →
      Signature.ofDocblock (signatureName outline parents names node kind) doc = .ok signature →
      Contributes node (.ok (told qualified (names.scope? node.id) signature))
  | diagnostic {kind : FunctionKind} {comment : Text} {fault : DocFault} :
      node.kind.function? = some kind → usableComment node = some comment →
      (read comment = .error fault ∨ ∃ doc, read comment = .ok doc ∧
        Signature.ofDocblock (signatureName outline parents names node kind) doc = .error fault) →
      Contributes node (.error ⟨signatureName outline parents names node kind, node.line, fault⟩)

end

variable {outline : Outline} {parents : ParentTable} {names : NameTable} {read : CommentReader}
variable {qualified : Bool}

theorem isDocumented_iff {node : Entry} :
    isDocumented node = true ↔
      ∃ kind comment, node.kind.function? = some kind ∧ usableComment node = some comment := by
  simp [isDocumented, Option.isSome_iff_exists]

theorem outcome_of_ok {node : Entry} {kind : FunctionKind} {comment : Text} {signature : Signature}
    (function : node.kind.function? = some kind) (usable : usableComment node = some comment)
    (given : signatureOf read qualified (names.scope? node.id)
      (signatureName outline parents names node kind) comment = .ok signature) :
    outcome outline parents names read qualified node = some (.ok signature) := by
  simp only [outcome, function, usable, given]

theorem outcome_of_error {node : Entry} {kind : FunctionKind} {comment : Text} {fault : DocFault}
    (function : node.kind.function? = some kind) (usable : usableComment node = some comment)
    (given : signatureOf read qualified (names.scope? node.id)
      (signatureName outline parents names node kind) comment = .error fault) :
    outcome outline parents names read qualified node =
      some (.error ⟨signatureName outline parents names node kind, node.line, fault⟩) := by
  simp only [outcome, function, usable, given]

theorem outcome_undocumented {node : Entry} (without : isDocumented node = false) :
    outcome outline parents names read qualified node = none := by
  unfold outcome
  split
  · next kind comment function usable =>
      rw [isDocumented_iff.mpr ⟨kind, comment, function, usable⟩] at without
      cases without
  · rfl

theorem signatureOf_ok {scope : Option Scope} {name comment : Text} {doc : Docblock}
    {signature : Signature} (reads : read comment = .ok doc)
    (fits : Signature.ofDocblock name doc = .ok signature) :
    signatureOf read qualified scope name comment = .ok (told qualified scope signature) := by
  simp only [signatureOf, reads, fits, bind, Except.bind]
  cases scope <;> rfl

theorem signatureOf_error {scope : Option Scope} {name comment : Text} {fault : DocFault}
    (fails : read comment = .error fault ∨
      ∃ doc, read comment = .ok doc ∧ Signature.ofDocblock name doc = .error fault) :
    signatureOf read qualified scope name comment = .error fault := by
  rcases fails with unread | ⟨doc, reads, unfit⟩
  · simp only [signatureOf, unread, bind, Except.bind]
  · simp only [signatureOf, reads, unfit, bind, Except.bind]

/-- The outcome at a documented function is what it contributes, and there is just one. -/
theorem outcome_eq_some_iff {node : Entry} {given : Except Diagnostic Signature} :
    outcome outline parents names read qualified node = some given ↔
      Contributes outline parents names read qualified node given := by
  constructor
  · intro found
    have documented : isDocumented node = true := by
      by_contra without
      rw [outcome_undocumented (by simpa using without)] at found
      cases found
    obtain ⟨kind, comment, function, usable⟩ := isDocumented_iff.mp documented
    cases reads : read comment with
    | error fault =>
        rw [outcome_of_error function usable (signatureOf_error (Or.inl reads))] at found
        cases found
        exact .diagnostic function usable (Or.inl reads)
    | ok doc =>
        cases fits : Signature.ofDocblock (signatureName outline parents names node kind) doc with
        | error fault =>
            have fails : read comment = .error fault ∨ ∃ doc, read comment = .ok doc ∧
                Signature.ofDocblock (signatureName outline parents names node kind) doc =
                  .error fault := Or.inr ⟨doc, reads, fits⟩
            rw [outcome_of_error function usable (signatureOf_error fails)] at found
            cases found
            exact .diagnostic function usable fails
        | ok signature =>
            rw [outcome_of_ok function usable (signatureOf_ok reads fits)] at found
            cases found
            exact .signature function usable reads fits
  · intro contributes
    cases contributes with
    | signature function usable reads fits =>
        exact outcome_of_ok function usable (signatureOf_ok reads fits)
    | diagnostic function usable fails =>
        exact outcome_of_error function usable (signatureOf_error fails)

theorem outcome_isSome (node : Entry) :
    (outcome outline parents names read qualified node).isSome = isDocumented node := by
  cases documented : isDocumented node with
  | false => rw [outcome_undocumented documented]; rfl
  | true =>
      obtain ⟨kind, comment, function, usable⟩ := isDocumented_iff.mp documented
      cases given : signatureOf read qualified (names.scope? node.id)
          (signatureName outline parents names node kind) comment with
      | ok signature => rw [outcome_of_ok function usable given]; rfl
      | error fault => rw [outcome_of_error function usable given]; rfl

def succeeded (outcomes : List (Except Diagnostic Signature)) : List Signature :=
  outcomes.filterMap fun
    | .ok signature => some signature
    | .error _ => none

def failed (outcomes : List (Except Diagnostic Signature)) : List Diagnostic :=
  outcomes.filterMap fun
    | .ok _ => none
    | .error diagnostic => some diagnostic

theorem mem_failed {outcomes : List (Except Diagnostic Signature)} {diagnostic : Diagnostic} :
    diagnostic ∈ failed outcomes ↔ .error diagnostic ∈ outcomes := by
  unfold failed
  rw [List.mem_filterMap]
  constructor
  · rintro ⟨given, inside, same⟩
    cases given with
    | ok signature => cases same
    | error other =>
        cases same
        exact inside
  · exact fun inside => ⟨_, inside, rfl⟩

/-- Visits of some trees append their outcomes, signatures and diagnostics each to their list. -/
theorem fold_visit (trees : List (Rose Entry)) (found : Extraction) :
    Rose.Walk.fold (visit outline parents names read qualified) trees found =
      ⟨found.signatures ++ succeeded ((trees.map Rose.label).filterMap
          (outcome outline parents names read qualified)),
        found.diagnostics ++ failed ((trees.map Rose.label).filterMap
          (outcome outline parents names read qualified)),
        found.warnings⟩ := by
  induction trees generalizing found with
  | nil => simp [Rose.Walk.fold, succeeded, failed]
  | cons tree trees ih =>
      have step :
          Rose.Walk.fold (visit outline parents names read qualified) (tree :: trees) found =
          Rose.Walk.fold (visit outline parents names read qualified) trees
            (visit outline parents names read qualified tree.label found) := rfl
      rw [step, ih]
      unfold visit
      split
      · next none_here => simp [none_here]
      · next signature here => simp [here, succeeded, failed]
      · next diagnostic here => simp [here, succeeded, failed]

/-- The outcomes of an outline's nodes, in the order of the recursive walk. -/
def outcomes (outline : Outline) (parents : ParentTable) (names : NameTable)
    (read : CommentReader) (qualified : Bool) : List (Except Diagnostic Signature) :=
  (outline.root.postorder.map Rose.label).filterMap (outcome outline parents names read qualified)

theorem ofTables_eq (outline : Outline) (parents : ParentTable) (names : NameTable)
    (read : CommentReader) (qualified : Bool) :
    ofTables outline parents names read qualified =
      ⟨succeeded (outcomes outline parents names read qualified),
        failed (outcomes outline parents names read qualified), names.warnings⟩ := by
  unfold ofTables
  rw [Rose.Walk.run_start, fold_visit]
  simp [outcomes]

/-- A filter that drops what has no image does not change the images. -/
theorem forall₂_filterMap {α β : Type} {relation : α → β → Prop} {image : α → Option β}
    {kept : α → Bool} (agree : ∀ x, (image x).isSome = kept x)
    (related : ∀ x y, image x = some y → relation x y) (xs : List α) :
    List.Forall₂ relation (xs.filter kept) (xs.filterMap image) := by
  induction xs with
  | nil => exact .nil
  | cons x xs ih =>
      cases found : image x with
      | none =>
          have dropped : kept x = false := by rw [← agree, found]; rfl
          simpa [found, dropped] using ih
      | some y =>
          have stays : kept x = true := by rw [← agree, found]; rfl
          simpa [found, stays] using List.Forall₂.cons (related x y found) ih

theorem contributes_outcomes :
    List.Forall₂ (Contributes outline parents names read qualified) (documented outline)
      (outcomes outline parents names read qualified) :=
  forall₂_filterMap outcome_isSome (fun _ _ found => outcome_eq_some_iff.mp found) _

end Extraction

end DocSig
