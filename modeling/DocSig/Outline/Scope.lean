import DocSig.Outline.Basic

/-!
What a class name means at a place of the source.

A `Scope` knows the namespace, the imports and the class around the place. `Scope.resolve`
follows the rules of the language in their order: `self`, `static` and `parent`, the built-in
types, a leading backslash, `namespace\`, an imported first segment, and else the namespace.
-/

set_option autoImplicit false

namespace DocSig

/-- The type words that never name a class. -/
def builtinTypes : List Text :=
  ["int", "integer", "float", "double", "string", "bool", "boolean", "void", "never", "null",
   "false", "true", "array", "callable", "iterable", "resource", "mixed", "object", "scalar",
   "numeric", "list", "non-empty-list", "non-empty-array", "array-key", "class-string",
   "positive-int", "negative-int", "non-empty-string", "numeric-string", "callable-string",
   "key-of", "value-of", "$this"].map String.toList

def isBuiltinType (name : Text) : Bool := builtinTypes.contains name.lower

/-- The class around a place: its full name, and that of the class it extends. -/
structure ClassContext where
  name : Text
  parent : Option Text
deriving Repr, BEq, DecidableEq

/-- What names mean at a place. -/
structure Scope where
  space : Option Text
  /-- Lower-case names with the full names that they stand for, the last import first. -/
  imports : List (Text × Text)
  enclosing : Option ClassContext
deriving Repr, BEq, DecidableEq

/-- What a class name turns out to be. -/
inductive Resolution where
  /-- A class with its full name. -/
  | resolved (name : Text)
  /-- A built-in type, as it is written. -/
  | builtin (name : Text)
  /-- Nothing that can be told here, as it is written. -/
  | unresolved (name : Text)
deriving Repr, BEq, DecidableEq

def Resolution.name : Resolution → Text
  | .resolved name | .builtin name | .unresolved name => name

namespace Scope

def outermost : Scope := ⟨none, [], none⟩

/-- The scope at the start of a namespace, which keeps nothing of what is around it. -/
def inSpace (name : Option Text) : Scope := ⟨name, [], none⟩

def inClass (scope : Scope) (context : ClassContext) : Scope :=
  ⟨scope.space, scope.imports, some context⟩

/-- The scope within a free function, which belongs to no class. -/
def inFunction (scope : Scope) : Scope := ⟨scope.space, scope.imports, none⟩

/-- The scope behind a list of imports; of two for one name the later counts. -/
def addImports (scope : Scope) : List Import → Scope
  | [] => scope
  | item :: items =>
    addImports ⟨scope.space, (item.short.lower, item.target) :: scope.imports, scope.enclosing⟩
      items

/-- What an imported name stands for, in any letter case. -/
def imported? (scope : Scope) (name : Text) : Option Text := scope.imports.lookup name.lower

def qualify (scope : Scope) (name : Text) : Text :=
  match scope.space with
  | some space => space ++ '\\' :: name
  | none => name

/-- The full name of a class name that is neither reserved nor marked by a leading backslash
or `namespace\`. -/
def resolvePlain (scope : Scope) (name : Text) : Text :=
  let first := name.takeWhile (· != '\\')
  let rest := name.dropWhile (· != '\\')
  match scope.imported? first with
  | some target => target ++ rest
  | none => scope.qualify name

/-- What a class name means, as it is written. -/
def resolve (scope : Scope) (name : Text) : Resolution :=
  if name = [] then .unresolved []
  else if name.lower = "self".toList ∨ name.lower = "static".toList then
    match scope.enclosing with
    | some context => .resolved context.name
    | none => .unresolved name
  else if name.lower = "parent".toList then
    match scope.enclosing.bind ClassContext.parent with
    | some parent => .resolved parent
    | none => .unresolved name
  else if isBuiltinType name then .builtin name
  else
    match Text.after? ['\\'] name with
    | some rest => .resolved rest
    | none =>
      if "namespace\\".toList.isPrefixOf name.lower then
        .resolved (scope.qualify (name.drop "namespace\\".toList.length))
      else .resolved (scope.resolvePlain name)

end Scope

end DocSig
