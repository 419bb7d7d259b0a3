import DocSig.Outline.Rose
import DocSig.Text.Basic

/-!
The outline of a source file: its namespaces, imports, classes, functions and class
references, as a tree of numbered nodes.

An outline grows by `Outline.push`, which numbers the new node by the count of nodes so far.
-/

set_option autoImplicit false

namespace DocSig

inductive ClassKind where
  | plain
  | interface
  | trait
  | enum
  /-- A class that an expression makes on the spot. -/
  | anonymous
deriving Repr, BEq, DecidableEq

/-- The name that every anonymous class goes by; no namespace is put before it. -/
def anonymousClassName : Text := "class@anonymous".toList

/-- How a function is called. -/
inductive FunctionKind where
  /-- By its own name, outside of any class. -/
  | free
  /-- On an object. -/
  | method
  /-- On a class. -/
  | staticMethod
deriving Repr, BEq, DecidableEq

/-- An imported class: the name it has here, and its full name. -/
structure Import where
  short : Text
  target : Text
deriving Repr, BEq, DecidableEq

/-- What a node of an outline stands for. -/
inductive NodeKind where
  | program
  /-- A block of code that may hold declarations. -/
  | block
  /-- A namespace, or the global one if it has no name. -/
  | space (name : Option Text)
  | imports (list : List Import)
  /-- A class or the like, with the class it extends as it is written. -/
  | classLike (kind : ClassKind) (name : Text) (parent : Option Text)
  | function (kind : FunctionKind) (name : Text)
  /-- A class name in a type or behind `extends` or `implements`, as it is written. -/
  | reference (name : Text)
deriving Repr, BEq, DecidableEq

namespace NodeKind

def name? : NodeKind → Option Text
  | .program | .block | .imports _ => none
  | .space name => name
  | .classLike _ name _ | .function _ name | .reference name => some name

def isClassLike : NodeKind → Bool
  | .classLike _ _ _ => true
  | _ => false

def function? : NodeKind → Option FunctionKind
  | .function kind _ => some kind
  | _ => none

end NodeKind

/-- A node: what it stands for, its line counted from 1, and the comment that documents it. -/
structure Node where
  kind : NodeKind
  line : Nat
  comment : Option Text
deriving Repr, BEq, DecidableEq

structure Entry extends Node where
  id : Nat
deriving Repr, BEq, DecidableEq

/-- A tree of numbered nodes and their count. -/
structure Outline where
  root : Rose Entry
  size : Nat
deriving Repr

namespace Outline

mutual

def graft (parent : Nat) (leaf : Entry) : Rose Entry → Rose Entry
  | .branch entry children =>
    .branch entry (graftAll parent leaf children ++
      if entry.id = parent then [.branch leaf []] else [])

def graftAll (parent : Nat) (leaf : Entry) : List (Rose Entry) → List (Rose Entry)
  | [] => []
  | tree :: trees => graft parent leaf tree :: graftAll parent leaf trees

end

def program : Node := ⟨.program, 1, none⟩

def empty : Outline := ⟨.branch ⟨program, 0⟩ [], 1⟩

/-- Adds a node as the last child of the node numbered `parent`; its number is the size so far.
The new node has no children of its own, and numbers do not end: in an outline of `2 ^ 32` nodes
or more they are not those that words of 32 bits would give. -/
def push (outline : Outline) (parent : Nat) (node : Node) : Outline :=
  ⟨graft parent ⟨node, outline.size⟩ outline.root, outline.size + 1⟩

def find? (outline : Outline) (id : Nat) : Option (Rose Entry) :=
  outline.root.preorder.find? fun tree => tree.label.id == id

def children (outline : Outline) (id : Nat) : List Nat :=
  match outline.find? id with
  | some tree => tree.children.map fun child => child.label.id
  | none => []

/-- The subtrees in the order of their numbers. -/
def subtrees (outline : Outline) : List (Rose Entry) :=
  (List.range outline.size).filterMap outline.find?

def isEmpty (outline : Outline) : Bool := outline.size == 1

end Outline

end DocSig
