import DocSig.Outline.Names
import DocSig.Outline.Parents
import DocSig.Outline.Walk
import DocSig.Signature

/-!
The signatures that the comments of an outline declare.

Every function with a comment that is not blank gives one outcome: its signature, or a
diagnostic if the comment cannot be used. The outcomes are in the order of the postorder walk,
so a function within another comes first. The tables of parents and names, and the reader of
comments, are given; the tables may be older than the outline.
-/

set_option autoImplicit false

namespace DocSig

/-- A declaration whose comment could not be used. -/
structure Diagnostic where
  declaration : Text
  line : Nat
  fault : DocFault
deriving Repr, BEq, DecidableEq

def Diagnostic.message (diagnostic : Diagnostic) : Text :=
  "line ".toList ++ Text.ofNat diagnostic.line ++ ": ".toList ++ diagnostic.declaration ++
    ": ".toList ++ diagnostic.fault.message

/-- All that one source gave. -/
structure Extraction where
  signatures : List Signature
  diagnostics : List Diagnostic
  warnings : List UnresolvedName
deriving DecidableEq

abbrev CommentReader := Text → Except DocFault Docblock

/-- A type text that is a class name and no more: letters, digits of any script, `_` and `\`,
not led by an ASCII digit. -/
def isClassName (name : Text) : Bool :=
  !name.isEmpty && name.all (fun c => isAlphanumeric c || c == '_' || c == '\\') &&
    !name.head?.any Char.isDigit

/-- A declared type with its class name told in full; anything else stays as it is. -/
def qualifyType (scope : Scope) (name : Text) : Text :=
  if isClassName name then
    match scope.resolve name with
    | .resolved found => found
    | .builtin _ | .unresolved _ => name
  else name

namespace Extraction

def separator : FunctionKind → Text
  | .free => []
  | .method => "->".toList
  | .staticMethod => "::".toList

/-- The full name of a node, or the one it declares if the table has none. -/
def declaredName (names : NameTable) (entry : Entry) : Text :=
  ((names.name? entry.id).or entry.kind.name?).getD []

def signatureName (outline : Outline) (parents : ParentTable) (names : NameTable)
    (entry : Entry) (kind : FunctionKind) : Text :=
  if kind = .free then declaredName names entry
  else
    match (parents.parent? entry.id).bind outline.find? with
    | some parent =>
      if parent.label.kind.isClassLike then
        declaredName names parent.label ++ separator kind ++ entry.kind.name?.getD []
      else declaredName names entry
    | none => declaredName names entry

/-- The signature that a comment declares, with its class names told in full on request. -/
def signatureOf (read : CommentReader) (qualified : Bool) (scope : Option Scope)
    (name comment : Text) : Except DocFault Signature := do
  let doc ← read comment
  let signature ← Signature.ofDocblock name doc
  match scope with
  | some scope => return if qualified then signature.mapTypes (qualifyType scope) else signature
  | none => return signature

/-- The comment of a node, unless it is blank. -/
def usableComment (entry : Entry) : Option Text :=
  entry.comment.filter fun comment => !comment.trim.isEmpty

/-- The outcome at one node: nothing, a diagnostic or a signature. -/
def outcome (outline : Outline) (parents : ParentTable) (names : NameTable)
    (read : CommentReader) (qualified : Bool) (entry : Entry) :
    Option (Except Diagnostic Signature) :=
  match entry.kind.function?, usableComment entry with
  | some kind, some comment =>
    let name := signatureName outline parents names entry kind
    match signatureOf read qualified (names.scope? entry.id) name comment with
    | .ok signature => some (.ok signature)
    | .error fault => some (.error ⟨name, entry.line, fault⟩)
  | _, _ => none

/-- What has been found behind the visit of a node. -/
def visit (outline : Outline) (parents : ParentTable) (names : NameTable)
    (read : CommentReader) (qualified : Bool) (entry : Entry) (found : Extraction) : Extraction :=
  match outcome outline parents names read qualified entry with
  | none => found
  | some (.ok signature) =>
    ⟨found.signatures ++ [signature], found.diagnostics, found.warnings⟩
  | some (.error diagnostic) =>
    ⟨found.signatures, found.diagnostics ++ [diagnostic], found.warnings⟩

/-- All that an outline gives, by tables that were made earlier. -/
def ofTables (outline : Outline) (parents : ParentTable) (names : NameTable)
    (read : CommentReader) (qualified : Bool) : Extraction :=
  ((Rose.Walk.start outline.root ⟨[], [], names.warnings⟩).run
    (visit outline parents names read qualified)).found

def ofOutline (outline : Outline) (qualified : Bool) : Extraction :=
  ofTables outline (.ofOutline outline) (.ofOutline outline) Docblock.parse qualified

end Extraction

end DocSig
