import DocSig.CommandLine.Run
import DocSig.Files.Store

/-!
The command: reads the files that a run may need, runs it on them and writes what it leaves.

A file that cannot be read and a folder that cannot be listed are kept as such; what cannot even be
looked up is missing.
-/

set_option autoImplicit false

namespace DocSig.CommandLine

def pathAt (place : Route) : String :=
  String.ofList (Path.shown (Path.follow [Path.slash] place))

def isFolder? (place : Route) : IO (Option Bool) := do
  try
    let path ← IO.FS.realPath (pathAt place)
    return some ((← path.metadata).type == .dir)
  catch _ => return none

def contentAt (place : Route) : IO (Except Text Bytes) := do
  try
    return .ok (← IO.FS.readBinFile (pathAt place)).toList
  catch error => return .error (toString error).toList

def namesAt (place : Route) : IO (Except Text (List Bytes)) := do
  try
    let entries ← (← IO.FS.realPath (pathAt place)).readDir
    return .ok (entries.toList.map fun entry => Text.bytes entry.fileName.toList)
  catch error => return .error (toString error).toList

/-- All that stands at a place. -/
partial def readTree? (place : Route) : IO (Option FileTree) := do
  match ← isFolder? place with
  | none => return none
  | some false => return some (.file (← contentAt place))
  | some true =>
    match ← namesAt place with
    | .error reason => return some (.sealed reason)
    | .ok names =>
      let entries ← names.filterMapM fun name => do
        return (← readTree? (place ++ [name])).map fun tree => (name, tree)
      return some (.folder entries)

def withTree (place : Route) (root : FileTree) : IO FileTree := do
  match ← readTree? place with
  | some tree => return FileTree.put tree place root
  | none => return root

/-- Some files with a folder or file at a place, so far without content, if nothing was read
there. -/
def withStep (place : Route) (root : FileTree) : IO FileTree := do
  if (root.find? place).isSome then return root
  else
    match ← isFolder? place with
    | some true => return FileTree.put (.folder []) place root
    | some false => return FileTree.put (.file (.ok [])) place root
    | none => return root

/-- Some files with the rules that the folder at a place holds. -/
def withRules (place : Route) (root : FileTree) : IO FileTree :=
  Files.ruleFiles.foldlM (fun root rules => do
    match root.find? (place ++ rules), ← contentAt (place ++ rules) with
    | none, .ok bytes => return FileTree.put (.file (.ok bytes)) (place ++ rules) root
    | _, _ => return root) root

/-- Some files with all that a path needs: what its steps lead through, what it leads
to, and the rules of the folders above. -/
def withPath (working : Route) (root : FileTree) (path : Path) : IO FileTree := do
  let start := if path.head? = some Path.slash then [] else working
  let step := fun ((here, root) : Route × FileTree) (name : Bytes) => do
    let next :=
      if name = [] ∨ name = [Path.dot] then here
      else if name = [Path.dot, Path.dot] then here.dropLast
      else here ++ [name]
    return (next, ← withStep next root)
  let (place, root) ← (path.splitOn Path.slash).foldlM step (start, root)
  let above := (List.range place.length).map place.take
  let root ← withTree place root
  above.foldlM (fun root folder => withRules folder root) root

def userFolder? : IO (Option Path) := do
  let given := (← IO.getEnv "XDG_CONFIG_HOME").map fun folder => Text.bytes folder.toList
  let home := (← IO.getEnv "HOME").map fun folder => Text.bytes folder.toList
  let usual := home.map fun home => Path.join home (Text.bytes ".config".toList)
  return (given.filter (·.head? = some Path.slash)).or usual

/-- The paths that a run with some arguments may read. -/
def pathsOf (working : Path) (user : Option Path) (args : List Text) : List Path :=
  match Arguments.read args with
  | .ok given =>
    Settings.localFile working :: (user.map Settings.userFile).toList ++ given.settings.toList ++
      given.paths
  | .error _ => []

end DocSig.CommandLine

open DocSig DocSig.CommandLine in
def main (args : List String) : IO UInt32 := do
  let args := args.map String.toList
  let folder := Text.bytes (← IO.currentDir).toString.toList
  let working := (folder.splitOn Path.slash).filter (!·.isEmpty)
  let user ← userFolder?
  let start ← withStep working (.folder [])
  let root ← (pathsOf folder user args).foldlM (withPath working) start
  let outcome := run .own (FileStore.mk root working user).toFileSystem args
  IO.print (String.ofList outcome.output)
  IO.eprint (String.ofList outcome.notice)
  return UInt32.ofNat outcome.code
