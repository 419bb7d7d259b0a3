import DocSig.Proofs.Extraction.Outcomes
import DocSig.Proofs.Outline.Resolution

/-!
What telling class names in full changes of an extraction, and what it leaves.

Two extractions of one outline, with class names told in full and without, have the same
diagnostics and warnings, and for each declaration the same signature up to the names of its
types: each set is the image of the set that was declared (`Rewritten`).
-/

set_option autoImplicit false

namespace DocSig

namespace TypeSet

theorem length_insertText_le (s : Text) (ts : List Text) :
    (insertText s ts).length ≤ ts.length + 1 := by
  induction ts with
  | nil => simp [insertText]
  | cons t ts ih =>
      unfold insertText
      split
      · simp
      · split
        · simpa using ih
        · simp

theorem length_ofList_le (ts : List Text) : (ofList ts).texts.length ≤ ts.length := by
  induction ts with
  | nil => exact Nat.le_refl 0
  | cons t ts ih =>
      have grows := length_insertText_le t (ofList ts).texts
      change (insertText t (ofList ts).texts).length ≤ ts.length + 1
      omega

/-- No set has more images than members. -/
theorem length_map_le (f : Text → Text) (set : TypeSet) :
    (set.map f).texts.length ≤ set.texts.length := by
  have images := length_ofList_le (set.texts.map f)
  rwa [List.length_map] at images

theorem map_id (set : TypeSet) : set.map (fun name => name) = set :=
  ext_mem fun s => by simp

end TypeSet

namespace Extraction

/-- How type names are rewritten in a scope; where no scope is known, they are not. -/
def rewriting (scope : Option Scope) (name : Text) : Text :=
  match scope with
  | some scope => qualifyType scope name
  | none => name

theorem rewriting_kept {scope : Scope} {name : Text}
    (kept : isClassName name = false ∨ isBuiltinType name = true ∨ IsUnresolvable scope name) :
    rewriting (some scope) name = name := by
  unfold rewriting qualifyType
  dsimp only
  rcases kept with other | builtin | unknown
  · rw [other]
    rfl
  · rw [resolve_builtin scope builtin, ite_self]
  · rw [resolve_unresolvable unknown, ite_self]

theorem rewriting_resolved {scope : Scope} {name : Text} (plain : isClassName name = true)
    (builtin : isBuiltinType name = false) (known : ¬ IsUnresolvable scope name) :
    scope.resolve name = .resolved (rewriting (some scope) name) := by
  have visible : name ≠ [] := by
    rintro rfl
    cases plain
  obtain ⟨found, resolved⟩ := exists_resolve_resolved visible builtin known
  have rewritten : rewriting (some scope) name = found := by
    unfold rewriting qualifyType
    dsimp only
    rw [if_pos plain, resolved]
  rw [rewritten, resolved]

/-- A class name is rewritten to what it means, be it a class or not. -/
theorem qualifyType_of_isClassName (scope : Scope) {name : Text} (plain : isClassName name = true) :
    qualifyType scope name = (scope.resolve name).name := by
  by_cases unknown : IsUnresolvable scope name
  · rw [resolve_unresolvable unknown]
    exact rewriting_kept (Or.inr (Or.inr unknown))
  · cases builtin : isBuiltinType name with
    | true =>
        rw [resolve_builtin scope builtin]
        exact rewriting_kept (Or.inr (Or.inl builtin))
    | false =>
        rw [rewriting_resolved plain builtin unknown]
        rfl

theorem told_true (scope : Option Scope) (signature : Signature) :
    told true scope signature = signature.mapTypes (rewriting scope) := by
  cases scope with
  | some scope => rfl
  | none =>
      have same : signature.parameters.map (TypeSet.map fun name => name) =
          signature.parameters := by
        rw [funext TypeSet.map_id]
        exact List.map_id _
      change signature = ⟨signature.name, signature.parameters.map (TypeSet.map fun name => name),
        signature.results.map fun name => name⟩
      rw [same, TypeSet.map_id]

theorem told_false (scope : Option Scope) (signature : Signature) :
    told false scope signature = signature := by
  cases scope <;> rfl

/-- One set is the image of another under a rewriting of names. -/
structure IsImage (rewrite : Text → Text) (set image : TypeSet) : Prop where
  mem_iff : ∀ name, name ∈ image ↔ ∃ written ∈ set, rewrite written = name
  length_le : image.texts.length ≤ set.texts.length
  empty : set = TypeSet.empty → image = TypeSet.empty

theorem isImage_map (rewrite : Text → Text) (set : TypeSet) :
    IsImage rewrite set (set.map rewrite) := by
  refine ⟨fun name => TypeSet.mem_map, TypeSet.length_map_le rewrite set, ?_⟩
  rintro rfl
  rfl

/-- Two names of one class become one member. -/
example : ((TypeSet.ofList ["B".toList, "\\Lib\\Base".toList]).map
    (rewriting (some ⟨none, [("b".toList, "Lib\\Base".toList)], none⟩))).texts =
      ["Lib\\Base".toList] := by decide +kernel

/-- A signature that differs from another in the names of its types at most. -/
structure Rewritten (rewrite : Text → Text) (declared told : Signature) : Prop where
  name : told.name = declared.name
  count : told.parameters.length = declared.parameters.length
  results : IsImage rewrite declared.results told.results
  parameters : List.Forall₂ (IsImage rewrite) declared.parameters told.parameters

theorem rewritten_mapTypes (rewrite : Text → Text) (signature : Signature) :
    Rewritten rewrite signature (signature.mapTypes rewrite) := by
  refine ⟨rfl, List.length_map _, isImage_map rewrite _, ?_⟩
  change List.Forall₂ _ signature.parameters (signature.parameters.map _)
  rw [List.forall₂_map_right_iff]
  exact List.forall₂_same.mpr fun set _ => isImage_map rewrite set

variable {outline : Outline} {parents : ParentTable} {names : NameTable} {read : CommentReader}

theorem signatureOf_told (qualified : Bool) (scope : Option Scope) (name comment : Text) :
    signatureOf read qualified scope name comment =
      (signatureOf read false scope name comment).map (told qualified scope) := by
  cases reads : read comment with
  | error fault => rw [signatureOf_error (Or.inl reads), signatureOf_error (Or.inl reads)]; rfl
  | ok doc =>
      cases fits : Signature.ofDocblock name doc with
      | error fault =>
          have fails : read comment = .error fault ∨
              ∃ doc, read comment = .ok doc ∧ Signature.ofDocblock name doc = .error fault :=
            Or.inr ⟨doc, reads, fits⟩
          rw [signatureOf_error fails, signatureOf_error fails]
          rfl
      | ok signature =>
          rw [signatureOf_ok reads fits, signatureOf_ok reads fits, told_false]
          rfl

/-- How names are told changes the signature of a function by its own scope; a diagnostic, and
whether there is an outcome at all, do not depend on it. -/
theorem outcome_told (qualified : Bool) (node : Entry) :
    outcome outline parents names read qualified node =
      (outcome outline parents names read false node).map fun given =>
        given.map (told qualified (names.scope? node.id)) := by
  unfold outcome
  split
  · dsimp only
    rw [signatureOf_told qualified]
    cases signatureOf read false (names.scope? node.id) _ _ with
    | ok signature => rfl
    | error fault => rfl
  · rfl

theorem contributes_told {node : Entry} {signature : Signature}
    (plainly : Contributes outline parents names read false node (.ok signature))
    (qualified : Bool) :
    Contributes outline parents names read qualified node
      (.ok (told qualified (names.scope? node.id) signature)) := by
  rw [← outcome_eq_some_iff, outcome_told, outcome_eq_some_iff.mpr plainly]
  rfl

/-- The functions of an outline that give a signature, each with the one that its comment
declares as it is written. -/
def declarations (outline : Outline) (parents : ParentTable) (names : NameTable)
    (read : CommentReader) : List (Entry × Signature) :=
  (outline.root.postorder.map Rose.label).filterMap fun node =>
    match outcome outline parents names read false node with
    | some (.ok signature) => some (node, signature)
    | _ => none

theorem declarations_sublist :
    ((declarations outline parents names read).map Prod.fst).Sublist (documented outline) := by
  unfold declarations documented
  induction outline.root.postorder.map Rose.label with
  | nil => exact List.Sublist.refl _
  | cons node nodes ih =>
      have decided : (outcome outline parents names read false node).isSome = isDocumented node :=
        outcome_isSome node
      rw [List.filterMap_cons, List.filter_cons]
      cases given : outcome outline parents names read false node with
      | none =>
          rw [given] at decided
          simpa [← decided] using ih
      | some contributed =>
          rw [given] at decided
          cases contributed with
          | ok signature => simpa [← decided] using ih
          | error diagnostic => simpa [← decided] using ih.cons node

theorem contributes_of_mem_declarations {node : Entry} {signature : Signature}
    (found : (node, signature) ∈ declarations outline parents names read) :
    Contributes outline parents names read false node (.ok signature) := by
  obtain ⟨other, -, given⟩ := List.mem_filterMap.mp found
  split at given
  · next here =>
      cases given
      exact outcome_eq_some_iff.mp here
  · cases given

/-- The signatures of an extraction are those of the declarations, rewritten or as they are. -/
theorem signatures_eq (qualified : Bool) :
    (ofTables outline parents names read qualified).signatures =
      (declarations outline parents names read).map fun declared =>
        told qualified (names.scope? declared.1.id) declared.2 := by
  rw [ofTables_eq]
  dsimp only
  unfold succeeded outcomes declarations
  rw [List.filterMap_filterMap, List.map_filterMap]
  refine List.filterMap_congr fun node _ => ?_
  rw [outcome_told qualified]
  cases outcome outline parents names read false node with
  | none => rfl
  | some given => cases given <;> rfl

theorem diagnostics_eq (qualified : Bool) :
    (ofTables outline parents names read qualified).diagnostics =
      (ofTables outline parents names read false).diagnostics := by
  rw [ofTables_eq, ofTables_eq]
  dsimp only
  unfold failed outcomes
  rw [List.filterMap_filterMap, List.filterMap_filterMap]
  refine List.filterMap_congr fun node _ => ?_
  rw [outcome_told qualified]
  cases outcome outline parents names read false node with
  | none => rfl
  | some given => cases given <;> rfl

/-- Telling class names in full changes type names and nothing else, for every outline, whatever
the tables and the reader of comments. There are the same diagnostics and warnings, and equally
many signatures of the same names in the same order. Each set of a signature is the image of the
set that is declared, under the rewriting of the function's own scope: this keeps all but class
names, the built-in types, and the words for a class where there is none. -/
theorem ofTables_qualified (outline : Outline) (parents : ParentTable) (names : NameTable)
    (read : CommentReader) :
    let plain := ofTables outline parents names read false
    let full := ofTables outline parents names read true
    full.diagnostics = plain.diagnostics ∧
    full.warnings = plain.warnings ∧
    full.signatures.map Signature.name = plain.signatures.map Signature.name ∧
    (∃ declared : List (Entry × Signature),
      (declared.map Prod.fst).Sublist (documented outline) ∧
      plain.signatures = declared.map Prod.snd ∧
      List.Forall₂ (fun (node, before) after =>
          Contributes outline parents names read false node (.ok before) ∧
          Contributes outline parents names read true node (.ok after) ∧
          Rewritten (rewriting (names.scope? node.id)) before after)
        declared full.signatures) ∧
    (∀ name, rewriting none name = name) ∧
    ∀ scope name,
      (isClassName name = false ∨ isBuiltinType name = true ∨ IsUnresolvable scope name →
        rewriting (some scope) name = name) ∧
      (isClassName name = true → isBuiltinType name = false → ¬ IsUnresolvable scope name →
        scope.resolve name = .resolved (rewriting (some scope) name)) := by
  intro plain full
  have plainly : plain.signatures = (declarations outline parents names read).map Prod.snd := by
    refine (signatures_eq false).trans (List.map_congr_left fun declared _ => ?_)
    exact told_false _ declared.2
  have fully : full.signatures = (declarations outline parents names read).map fun declared =>
      declared.2.mapTypes (rewriting (names.scope? declared.1.id)) := by
    refine (signatures_eq true).trans (List.map_congr_left fun declared _ => ?_)
    exact told_true _ declared.2
  refine ⟨diagnostics_eq true, ?_, ?_,
    ⟨declarations outline parents names read, declarations_sublist, plainly, ?_⟩, fun _ => rfl,
    fun _ _ => ⟨rewriting_kept, rewriting_resolved⟩⟩
  · simp only [plain, full, ofTables_eq]
  · rw [plainly, fully, List.map_map, List.map_map]
    rfl
  · rw [fully, List.forall₂_map_right_iff, List.forall₂_same]
    rintro ⟨node, before⟩ found
    have plainly := contributes_of_mem_declarations found
    have fully := contributes_told plainly true
    rw [told_true] at fully
    exact ⟨plainly, fully, rewritten_mapTypes _ before⟩

end Extraction

end DocSig
