import DocSig.Outline.Scope

/-!
The full name of every declaration and class reference of an outline.

The outline is walked in the order of the source with the scope in force. An import changes the
scope for what follows it in the same namespace, class body or free function; blocks and
methods let it through to what follows them, the others restore the scope they were entered
with. Below an import or a class reference nothing is named.
-/

set_option autoImplicit false

namespace DocSig

/-- A class name that could not be told, with its line. -/
structure UnresolvedName where
  name : Text
  line : Nat
deriving Repr, BEq, DecidableEq

def UnresolvedName.message (warning : UnresolvedName) : Text :=
  "line ".toList ++ Text.ofNat warning.line ++ ": unresolved name ".toList ++
    Text.quoted warning.name

/-- What the walk found at one node: its name, the scope of a function, and a warning. -/
structure Naming where
  id : Nat
  name : Option Text
  scope : Option Scope
  warning : Option UnresolvedName
deriving Repr, BEq, DecidableEq

/-- What the walk found, node by node in the order of the source. -/
structure NameTable where
  namings : List Naming
deriving Repr, BEq, DecidableEq

namespace NameTable

/-- What a class reference stands for. -/
def ofReference (scope : Scope) (id line : Nat) (name : Text) : Naming :=
  match scope.resolve name with
  | .unresolved written => ⟨id, some written, none, some ⟨written, line⟩⟩
  | .resolved found | .builtin found => ⟨id, some found, none, none⟩

/-- The class that a class-like node puts around its members. -/
def contextOf (scope : Scope) (kind : ClassKind) (name : Text) (parent : Option Text) :
    ClassContext :=
  ⟨if kind = .anonymous then name else scope.qualify name,
    parent.map fun parent => (scope.resolve parent).name⟩

mutual

/-- Names the nodes of a tree that `scope` is in force at; also gives the scope behind it. -/
def walk (scope : Scope) : Rose Entry → Scope × List Naming
  | .branch entry children =>
    match entry.kind with
    | .program | .block => walkAll scope children
    | .space name =>
      (scope, ⟨entry.id, name, none, none⟩ :: (walkAll (Scope.inSpace name) children).2)
    | .imports list => (scope.addImports list, [])
    | .classLike kind name parent =>
      let context := contextOf scope kind name parent
      (scope, ⟨entry.id, some context.name, none, none⟩ ::
        (walkAll (scope.inClass context) children).2)
    | .function .free name =>
      (scope, ⟨entry.id, some (scope.qualify name), some scope.inFunction, none⟩ ::
        (walkAll scope.inFunction children).2)
    | .function _ name =>
      let (after, below) := walkAll scope children
      (after, ⟨entry.id, some name, some scope, none⟩ :: below)
    | .reference name => (scope, [ofReference scope entry.id entry.line name])

def walkAll (scope : Scope) : List (Rose Entry) → Scope × List Naming
  | [] => (scope, [])
  | tree :: trees =>
    let (scope, first) := walk scope tree
    let (scope, more) := walkAll scope trees
    (scope, first ++ more)

end

def ofOutline (outline : Outline) : NameTable := ⟨(walk Scope.outermost outline.root).2⟩

/-- What the table has for a node. -/
def find? (table : NameTable) (id : Nat) : Option Naming :=
  table.namings.find? fun naming => naming.id == id

/-- The full name of a node; a method has its own name alone. -/
def name? (table : NameTable) (id : Nat) : Option Text := (table.find? id).bind Naming.name

def scope? (table : NameTable) (id : Nat) : Option Scope := (table.find? id).bind Naming.scope

/-- The names that could not be told, in the order of the source. -/
def warnings (table : NameTable) : List UnresolvedName := table.namings.filterMap Naming.warning

end NameTable

end DocSig
