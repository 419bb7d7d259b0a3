import DocSig.Text.Utf8

/-!
Paths, step by step.

A path is written in bytes that need not be text. Only the slash and names of dots alone mean
anything in it: `components` are its steps, and paths are compared by these and not by their bytes,
so that `a/x` comes before `a-b/y`.
-/

set_option autoImplicit false

namespace DocSig

abbrev Bytes := List UInt8

abbrev Path := Bytes

/-- A step of a path. -/
inductive Component where
  /-- The outermost folder. -/
  | root
  /-- The folder that a path starts from. -/
  | here
  /-- One folder up. -/
  | up
  | name (bytes : Bytes)
deriving Repr, BEq, DecidableEq

namespace Path

def slash : UInt8 := 0x2F

def dot : UInt8 := 0x2E

/-- A path as it is shown, with replacements for what is not UTF-8. -/
def shown (path : Path) : Text := Utf8.decodeLossy path

/-- A path with another one behind it, unless that one starts from the outermost folder. -/
def join (path behind : Path) : Path :=
  if behind.head? = some slash then behind
  else if path.isEmpty ∨ path.getLast? = some slash then path ++ behind
  else path ++ slash :: behind

def firstComponent (part : Bytes) : Component :=
  if part = [] then .root
  else if part = [dot] then .here
  else if part = [dot, dot] then .up
  else .name part

/-- The step between two slashes; nothing and a single dot are none. -/
def laterComponent? (part : Bytes) : Option Component :=
  if part = [] ∨ part = [dot] then none
  else if part = [dot, dot] then some .up
  else some (.name part)

def components (path : Path) : List Component :=
  match path.splitOn slash with
  | [] | [[]] => []
  | first :: others => firstComponent first :: others.filterMap laterComponent?

end Path

/-- What steps are ordered by: the outermost folder comes first and names come last, by their
bytes. -/
def Component.key : Component → Bytes
  | .root => [0]
  | .here => [1]
  | .up => [2]
  | .name bytes => 3 :: bytes

namespace Path

def key (path : Path) : List Bytes := path.components.map Component.key

def notAfter (a b : Path) : Bool := !decide (b.key < a.key)

/-- What follows the last dot of a name, unless nothing stands before that dot. -/
def extensionOf? (name : Bytes) : Option Bytes :=
  let back := name.reverse
  match back.dropWhile (· != dot) with
  | _ :: _ :: _ => some (back.takeWhile (· != dot)).reverse
  | _ => none

def extension? (path : Path) : Option Bytes :=
  match path.components.getLast? with
  | some (.name name) => extensionOf? name
  | _ => none

/-- Whether a path has one of some extensions, up to the case of ASCII letters. -/
def hasExtension (extensions : List Text) (path : Path) : Bool :=
  path.extension?.any fun extension => extensions.any (Text.sameIgnoringCase (shown extension))

end Path

end DocSig
