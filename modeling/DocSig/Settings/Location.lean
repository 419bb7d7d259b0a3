import DocSig.Files.Basic
import DocSig.Settings.Basic
import DocSig.Text.LineIndex

/-!
Where the settings of a run stand.

A settings file that is named has to be usable. Without one the file of the working folder and then
that of the user are tried, and the first that can be used counts; if there is none, the defaults
do.
-/

set_option autoImplicit false

namespace DocSig.Settings

def ofFile (read : Reader) (files : FileSystem) (path : Path) : Except Fault Settings := do
  let document ← (files.readText path).mapError (Fault.unreadable path)
  (read document).mapError fun message =>
    Fault.settings (path.shown ++ ": ".toList ++ message)

def localFile (folder : Path) : Path := folder.join (Text.bytes ".phpdoc-extract.toml".toList)

def userFile (folder : Path) : Path :=
  (folder.join (Text.bytes "phpdoc-extract".toList)).join (Text.bytes "config.toml".toList)

/-- The settings of the first file that can be used, in the working folder or the user's. -/
def discover (read : Reader) (files : FileSystem) : Settings :=
  let candidates := localFile files.working :: (files.userFolder?.map userFile).toList
  let usable (path : Path) : Option Settings :=
    if files.isFile path then (ofFile read files path).toOption else none
  (candidates.findSome? usable).getD {}

/-- The settings of a run: those of the file that is named, which has to be usable, or else those
that are discovered. -/
def load (read : Reader) (files : FileSystem) (explicit : Option Path) : Except Fault Settings :=
  match explicit with
  | some path => ofFile read files path
  | none => .ok (discover read files)

end DocSig.Settings
