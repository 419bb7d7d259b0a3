import DocSig.Text.Basic

/-!
JSON texts indented by two blanks a level.

A writer takes the level that its value stands at. Arrays and objects put each item on a line of
its own, one level deeper; an array without items is `[]`. In strings only the quote, the
backslash and the control characters below U+0020 are escaped.
-/

set_option autoImplicit false

namespace DocSig.Json

/-- The text of a value that stands at a given level. -/
abbrev Writer (α : Type) := Nat → α → Text

/-- A control character by its number, in four digits to base sixteen. -/
def escapedByNumber (c : Char) : Text :=
  ['\\', 'u', '0', '0', Nat.digitChar (c.toNat / 16), Nat.digitChar (c.toNat % 16)]

def escaped (c : Char) : Text :=
  if c = '"' then ['\\', '"']
  else if c = '\\' then ['\\', '\\']
  else if c = '\x08' then ['\\', 'b']
  else if c = '\t' then ['\\', 't']
  else if c = '\n' then ['\\', 'n']
  else if c = '\x0c' then ['\\', 'f']
  else if c = '\r' then ['\\', 'r']
  else if c.toNat < 0x20 then escapedByNumber c
  else [c]

def string : Writer Text := fun _ s => '"' :: (s.flatMap escaped ++ ['"'])

def newLine (level : Nat) : Text := '\n' :: List.replicate (2 * level) ' '

def itemLines (level : Nat) (items : List Text) : Text :=
  Text.join [','] (items.map (newLine level ++ ·))

def array {α : Type} (item : Writer α) : Writer (List α)
  | _, [] => ['[', ']']
  | level, values =>
    '[' :: (itemLines (level + 1) (values.map (item (level + 1))) ++ newLine level ++ [']'])

/-- A field of an object: its key and its value, whose type the writer knows. -/
def field {α : Type} (key : Text) (write : Writer α) : Writer α := fun level value =>
  string level key ++ [':', ' '] ++ write level value

/-- An object of at least one field, given as the writers of its fields. -/
def object {α : Type} (fields : List (Writer α)) : Writer α := fun level value =>
  '{' :: (itemLines (level + 1) (fields.map fun write => write (level + 1) value) ++
    newLine level ++ ['}'])

def on {α β : Type} (part : β → α) (write : Writer α) : Writer β :=
  fun level value => write level (part value)

end DocSig.Json
