import DocSig.Files.Path

/-!
Trees of files and folders.

What stands in a tree is told by routes, the names that lead down to it. A file may be one whose
content cannot be read, and a folder one whose names cannot.
-/

set_option autoImplicit false

namespace DocSig

inductive FileTree where
  | file (content : Except Text Bytes)
  | folder (entries : List (Bytes × FileTree))
  /-- A folder whose names cannot be read. -/
  | sealed (reason : Text)

/-- The names that lead down from a folder. -/
abbrev Route := List Bytes

/-- The path of what a route leads to from the folder of a path. -/
def Path.follow (folder : Path) (route : Route) : Path :=
  if route = [] then folder else folder.join ([slash].intercalate route)

namespace FileTree

/-- What stands in a folder as far as its names can be read; a file holds nothing. -/
def entries : FileTree → List (Bytes × FileTree)
  | .file _ | .sealed _ => []
  | .folder entries => entries

def child? (name : Bytes) (tree : FileTree) : Option FileTree := tree.entries.lookup name

/-- What a route leads to. -/
def find? : Route → FileTree → Option FileTree
  | [], tree => some tree
  | name :: route, tree => (tree.child? name).bind (find? route)

def bytes? : FileTree → Option Bytes
  | .file content => content.toOption
  | .folder _ | .sealed _ => none

def isFolder : FileTree → Bool
  | .file _ => false
  | .folder _ | .sealed _ => true

def setEntry (name : Bytes) (tree : FileTree) : List (Bytes × FileTree) → List (Bytes × FileTree)
  | [] => [(name, tree)]
  | (other, old) :: entries =>
    if other = name then (name, tree) :: entries else (other, old) :: setEntry name tree entries

/-- Puts something where a route leads; folders that are missing on the way are made. -/
def put (placed : FileTree) : Route → FileTree → FileTree
  | [], _ => placed
  | name :: route, tree =>
    .folder (setEntry name (put placed route ((tree.child? name).getD (.folder []))) tree.entries)

end FileTree

end DocSig
