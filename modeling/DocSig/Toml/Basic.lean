import DocSig.Text.Basic

/-!
The values of a TOML document, and the rules by which its lines build one table.

How a table came to be decides what may still be added to it (`Origin`). `define?` and `append?`
open a table under a header, `assign?` gives a value to a dotted key, and `under?` reaches the
table that a header names; all of them fail rather than define anything twice.
-/

set_option autoImplicit false

namespace DocSig.Toml

/-- How a table came to be. -/
inductive Origin where
  /-- Written within braces; nothing can be added to it. -/
  | braces
  /-- Named by a header. -/
  | header
  /-- Implied by the header of a table within it. -/
  | implied
  /-- Made by the keys before the last dot. -/
  | dotted
deriving Repr, BEq, DecidableEq

/-- A value. Numbers with a fraction or an exponent, dates and times keep their spelling. -/
inductive Value where
  | string (text : Text)
  | boolean (truth : Bool)
  | integer (number : Int)
  | float (spelling : Text)
  | moment (spelling : Text)
  | array (items : List Value)
  | table (origin : Origin) (fields : List (Text × Value))
  | tables (items : List (List (Text × Value)))

/-- The keys of a table with their values; no key stands twice. -/
abbrev Fields := List (Text × Value)

/-- The items of an array, also of one whose tables were written under headers. -/
def Value.items? : Value → Option (List Value)
  | .array items => some items
  | .tables items => some (items.map (.table .header))
  | _ => none

namespace Fields

def find? (key : Text) (fields : Fields) : Option Value := fields.lookup key

/-- Gives a key a value: in the place of its old one, or at the end. -/
def set (key : Text) (value : Value) : Fields → Fields
  | [] => [(key, value)]
  | (other, old) :: fields =>
    if other = key then (key, value) :: fields else (other, old) :: set key value fields

def onLast? (change : Fields → Option Fields) : List Fields → Option (List Fields)
  | [] => none
  | [last] => do return [← change last]
  | first :: more => do return first :: (← onLast? change more)

/-- Changes the table that a header's keys lead to, through the last item of an array of tables;
tables on the way that are missing are implied. -/
def under? (change : Fields → Option Fields) : List Text → Fields → Option Fields
  | [], fields => change fields
  | key :: path, fields =>
    match find? key fields with
    | none => do return set key (.table .implied (← under? change path [])) fields
    | some (.table .braces _) => none
    | some (.table origin inner) => do
      return set key (.table origin (← under? change path inner)) fields
    | some (.tables items) => do
      return set key (.tables (← onLast? (under? change path) items)) fields
    | some _ => none

/-- Opens the table of a header that ends in `key`; it may have been implied so far. -/
def define? (key : Text) (fields : Fields) : Option Fields :=
  match find? key fields with
  | none => some (set key (.table .header []) fields)
  | some (.table .implied inner) => some (set key (.table .header inner) fields)
  | some _ => none

def append? (key : Text) (fields : Fields) : Option Fields :=
  match find? key fields with
  | none => some (set key (.tables [[]]) fields)
  | some (.tables items) => some (set key (.tables (items ++ [[]])) fields)
  | some _ => none

/-- Gives a dotted key its value. Tables named before the last dot are those of other dotted keys;
one implied by a header, or the last item of an array of tables, can only be passed through. -/
def assign? (value : Value) : List Text → Fields → Option Fields
  | [], _ => none
  | [key], fields => if (find? key fields).isSome then none else some (set key value fields)
  | key :: next :: path, fields =>
    match find? key fields with
    | none => do return set key (.table .dotted (← assign? value (next :: path) [])) fields
    | some (.table .dotted inner) => do
      return set key (.table .dotted (← assign? value (next :: path) inner)) fields
    | some (.table .implied inner) =>
      if path.isEmpty then none
      else do return set key (.table .implied (← assign? value (next :: path) inner)) fields
    | some (.tables items) =>
      if path.isEmpty then none
      else do
        return set key (.tables (← onLast? (assign? value (next :: path)) items)) fields
    | some _ => none

end Fields

/-- A line of a document that is not empty; a path has at least one key. -/
inductive Line where
  | header (path : List Text)
  | itemHeader (path : List Text)
  | assignment (path : List Text) (value : Value)

/-- What the lines read so far have built: the outermost table, and the header in force. -/
structure Document where
  fields : Fields
  header : List Text

namespace Document

def empty : Document := ⟨[], []⟩

def openAt? (start : Text → Fields → Option Fields) (path : List Text) (document : Document) :
    Option Document := do
  let last ← path.getLast?
  return ⟨← Fields.under? (start last) path.dropLast document.fields, path⟩

def add? (document : Document) : Line → Option Document
  | .header path => document.openAt? Fields.define? path
  | .itemHeader path => document.openAt? Fields.append? path
  | .assignment path value => do
    let fields ← Fields.under? (Fields.assign? value path) document.header document.fields
    return ⟨fields, document.header⟩

def ofLines? (lines : List Line) : Option Fields := do
  return (← lines.foldlM add? empty).fields

end Document

def Value.ofPairs? (pairs : List (List Text × Value)) : Option Value := do
  let add (fields : Fields) (pair : List Text × Value) : Option Fields :=
    Fields.assign? pair.2 pair.1 fields
  return .table .braces (← pairs.foldlM add [])

end DocSig.Toml
