import DocSig.Text.Basic

/-!
Type expressions of documentation comments, and their canonical text.

`DocType` is the tree of a type such as `array<int, User>|null`; `DocType.text`
writes it in one spelling, with parentheses only where the tree needs them.
`DocType.alternatives` lists the members of a union at its top.
-/

set_option autoImplicit false

namespace DocSig

/-- One entry of a shape such as `array{id: int, name?: string}`. -/
structure ShapeEntry (α : Type) where
  key : Option Text
  isOptional : Bool
  value : α
deriving Repr, BEq, DecidableEq

/-- A type expression. -/
inductive DocType where
  /-- A name such as `int`, `\Foo\Bar`, `class-string` or `$this`. -/
  | name (text : Text)
  /-- A number, a quoted string with its quotes, or a constant `A::B`. -/
  | literal (text : Text)
  /-- `?T` -/
  | nullable (inner : DocType)
  /-- `T[]` -/
  | array (item : DocType)
  /-- `base<T, U>` -/
  | generic (base : Text) (arguments : List DocType)
  /-- A base with its entries in braces. -/
  | shape (base : Text) (entries : List (ShapeEntry DocType))
  /-- `base(T, U): R` -/
  | callable (base : Text) (parameters : List DocType) (result : Option DocType)
  /-- `(subject is T ? U : V)`, or with `is not` -/
  | conditional (subject : Text) (negated : Bool) (target positive negative : DocType)
  /-- `T|U` -/
  | union (members : List DocType)
  /-- `T&U` -/
  | intersection (members : List DocType)
deriving Repr

namespace DocType

/-- A union or an intersection, which stands in parentheses as a member of another. -/
def isCompound : DocType → Bool
  | .union _ | .intersection _ => true
  | _ => false

/-- A type that stands in parentheses before `[]`. -/
def needsParentheses : DocType → Bool
  | .union _ | .intersection _ | .nullable _ => true
  | _ => false

/-- The members of a union, or the type itself as the only alternative. -/
def alternatives : DocType → List DocType
  | .union members => members
  | type => [type]

/-- A text in parentheses if `wrapped` says so. -/
def parenthesizedIf (wrapped : Bool) (s : Text) : Text :=
  if wrapped then '(' :: (s ++ [')']) else s

def keyText (key : Option Text) (isOptional : Bool) : Text :=
  match key with
  | some key => key ++ (if isOptional then ['?', ':', ' '] else [':', ' '])
  | none => []

mutual

def text : DocType → Text
  | .name s => s
  | .literal s => s
  | .nullable inner => '?' :: text inner
  | .array item => parenthesizedIf item.needsParentheses (text item) ++ ['[', ']']
  | .generic base arguments => base ++ '<' :: (Text.join [',', ' '] (texts arguments) ++ ['>'])
  | .shape base entries =>
    base ++ '\x7b' :: (Text.join [',', ' '] (entryTexts entries) ++ ['\x7d'])
  | .callable base parameters result =>
    base ++ '(' :: (Text.join [',', ' '] (texts parameters) ++ ')' :: resultText result)
  | .conditional subject negated target positive negative =>
    '(' :: (subject ++ (if negated then " is not ".toList else " is ".toList) ++ text target ++
      " ? ".toList ++ text positive ++ " : ".toList ++ text negative ++ [')'])
  | .union members => Text.join ['|'] (memberTexts members)
  | .intersection members => Text.join ['&'] (memberTexts members)

def texts : List DocType → List Text
  | [] => []
  | type :: types => text type :: texts types

def memberTexts : List DocType → List Text
  | [] => []
  | type :: types => parenthesizedIf type.isCompound (text type) :: memberTexts types

def entryTexts : List (ShapeEntry DocType) → List Text
  | [] => []
  | ⟨key, isOptional, value⟩ :: entries =>
    (keyText key isOptional ++ text value) :: entryTexts entries

def resultText : Option DocType → Text
  | none => []
  | some type => ':' :: ' ' :: text type

end

theorem texts_eq_map (types : List DocType) : texts types = types.map text := by
  induction types with
  | nil => rfl
  | cons type types ih => simp [texts, ih]

theorem memberTexts_eq_map (types : List DocType) :
    memberTexts types = types.map fun type => parenthesizedIf type.isCompound (text type) := by
  induction types with
  | nil => rfl
  | cons type types ih => simp [memberTexts, ih]

theorem entryTexts_eq_map (entries : List (ShapeEntry DocType)) :
    entryTexts entries = entries.map fun entry =>
      keyText entry.key entry.isOptional ++ text entry.value := by
  induction entries with
  | nil => rfl
  | cons entry entries ih => simp [entryTexts, ih]

end DocType

/-- A declared type as the texts of its alternatives: a union keeps its list, in order and
with repetitions, and any other type is a single alternative. -/
inductive Alternatives where
  | single (text : Text)
  | union (members : List Text)
deriving Repr, BEq, DecidableEq

/-- The alternatives of a type, each in its canonical text. -/
def DocType.toAlternatives : DocType → Alternatives
  | .union members => .union (members.map DocType.text)
  | type => .single type.text

def Alternatives.texts : Alternatives → List Text
  | .single text => [text]
  | .union members => members

end DocSig
