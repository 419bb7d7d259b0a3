import DocSig.Files.Path

/-!
What a run sees of the files of a machine.

A file system is whatever answers the questions that a run asks. Each question may be answered with
an error, which bears the words of the system; a file that is there may still not be readable, and
a walk may come upon entries that it cannot read.
-/

set_option autoImplicit false

namespace DocSig

inductive FileKind where
  | file
  | folder
  | other
deriving Repr, BEq, DecidableEq

/-- The files of a machine, with the errors in the words of the system. -/
structure FileSystem where
  /-- The working folder, unless it cannot be told. -/
  working? : Option Path
  /-- The folder of the user's settings, if there is one. -/
  userFolder? : Option Path
  kind : Path → Except Text FileKind
  read : Path → Except Text Bytes
  /-- The paths that a walk of a folder comes upon, one after the other: the folder itself and what
  is below it, as far as no rule for the walk leaves it out. -/
  walk : Path → List (Except Text Path)

namespace FileSystem

def working (files : FileSystem) : Path := files.working?.getD [Path.dot]

def isFile (files : FileSystem) (path : Path) : Bool :=
  match files.kind path with
  | .ok .file => true
  | _ => false

/-- The text of a file, which has to be UTF-8. -/
def readText (files : FileSystem) (path : Path) : Except Text Text := do
  match Utf8.decode? (← files.read path) with
  | some text => return text
  | none => throw "stream did not contain valid UTF-8".toList

end FileSystem

end DocSig
