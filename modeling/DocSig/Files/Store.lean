import DocSig.Files.Basic
import DocSig.Files.Search

/-!
A file system whose files are all in one tree.

A path is followed from the outermost folder or from the working folder, name by name; `.` and an
empty name stay, `..` goes up. Each step has to start in a folder, so a path that goes on behind a
file leads nowhere.
-/

set_option autoImplicit false

namespace DocSig

/-- All files, with the folder that paths are followed from unless they begin with a slash. -/
structure FileStore where
  root : FileTree
  working : Route
  userFolder : Option Path

/-- Why something cannot be read. -/
inductive ReadFault where
  | missing
  | isFolder
  | notFolder
deriving Repr, BEq, DecidableEq

def ReadFault.message : ReadFault → Text
  | .missing => "No such file or directory (os error 2)".toList
  | .isFolder => "Is a directory (os error 21)".toList
  | .notFolder => "Not a directory (os error 20)".toList

namespace FileStore

def follow (root : FileTree) : List Bytes → Route → Except ReadFault Route
  | [], here => .ok here
  | part :: parts, here =>
    match root.find? here with
    | some (.folder entries) =>
      if part = [] ∨ part = [Path.dot] then follow root parts here
      else if part = [Path.dot, Path.dot] then follow root parts here.dropLast
      else if (entries.lookup part).isSome then follow root parts (here ++ [part])
      else .error .missing
    | _ => .error .notFolder

def locate (store : FileStore) (path : Path) : Except ReadFault Route :=
  if path.isEmpty then .error .missing
  else
    let start := if path.head? = some Path.slash then [] else store.working
    follow store.root (path.splitOn Path.slash) start

/-- What stands where a path leads to, with its place. -/
def find (store : FileStore) (path : Path) : Except ReadFault (Route × FileTree) := do
  let place ← store.locate path
  match store.root.find? place with
  | some tree => return (place, tree)
  | none => throw .missing

def kind (store : FileStore) (path : Path) : Except Text FileKind :=
  match store.find path with
  | .ok (_, tree) => .ok (if tree.isFolder then .folder else .file)
  | .error fault => .error fault.message

def read (store : FileStore) (path : Path) : Except Text Bytes :=
  match store.find path with
  | .ok (_, .file content) => content
  | .ok (_, .folder _) | .ok (_, .sealed _) => .error ReadFault.isFolder.message
  | .error fault => .error fault.message

/-- What a walk of a folder comes upon: what a search of it does. -/
def walk (store : FileStore) (path : Path) : List (Except Text Path) :=
  match store.find path with
  | .ok (place, tree) =>
    (Files.search store.root place tree).map fun found => found.map path.follow
  | .error fault => [.error fault.message]

def toFileSystem (store : FileStore) : FileSystem where
  working? := some (Path.follow [Path.slash] store.working)
  userFolder? := store.userFolder
  kind := store.kind
  read := store.read
  walk := store.walk

end FileStore

end DocSig
