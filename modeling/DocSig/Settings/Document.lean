import DocSig.Settings.Basic
import DocSig.Toml.Parser

/-!
Reading settings from a TOML document.

The section `output` holds `format`; the section `extract` holds `extensions` and
`qualify_doc_types`. Keys that are missing keep their defaults and keys that are unknown do not
count, but a value of the wrong type makes the whole document unusable. A section may also be
written as an array of its values in this order, and the name of a format as the one key of a
table without content.
-/

set_option autoImplicit false

namespace DocSig

namespace Settings

open Toml (Value Fields)

/-- The value of each key of a section, in order, as far as it is given. -/
def section? (keys : List Text) : Value → Option (List (Option Value))
  | .table _ fields => some (keys.map fun key => Fields.find? key fields)
  | value => do
    let items ← value.items?
    return keys.mapIdx fun i _ => items[i]?

/-- The value that a key has by some reading, or its default if it is not given. -/
def readOr {α : Type} (default : α) (read : Value → Option α) : Option Value → Option α
  | none => some default
  | some value => read value

def isVoid : Value → Bool
  | .table _ fields => fields.isEmpty
  | .array items => items.isEmpty
  | _ => false

def format? : Value → Option OutputFormat
  | .string name => OutputFormat.ofName? name
  | .table _ [(name, content)] => if isVoid content then OutputFormat.ofName? name else none
  | _ => none

def boolean? : Value → Option Bool
  | .boolean truth => some truth
  | _ => none

def string? : Value → Option Text
  | .string text => some text
  | _ => none

def strings? (value : Value) : Option (List Text) := do (← value.items?).mapM string?

def ofOutput? (value : Value) : Option OutputFormat := do
  match ← section? ["format".toList] value with
  | [format] => readOr .line format? format
  | _ => none

def ofExtract? (value : Value) : Option ScanOptions := do
  match ← section? ["extensions".toList, "qualify_doc_types".toList] value with
  | [extensions, qualified] =>
    return ⟨← readOr ["php".toList] strings? extensions, ← readOr false boolean? qualified⟩
  | _ => none

def ofFields? (fields : Fields) : Option Settings := do
  return ⟨← readOr .line ofOutput? (fields.find? "output".toList),
    ← readOr {} ofExtract? (fields.find? "extract".toList)⟩

def ofDocument : Reader := fun document =>
  match (Toml.parse? document).bind ofFields? with
  | some settings => .ok settings
  | none => .error "the document does not describe settings".toList

end Settings

end DocSig
