import DocSig.Files.Basic
import DocSig.Php.Outline
import DocSig.Settings.Basic

/-!
Extracting the signatures of the files that a path stands for.

A path to a folder stands for the files that a walk of it comes upon, as far as they have one of
the wanted extensions, in the order of their paths; any other path stands for itself, whatever its
name. Bytes that are not UTF-8 are replaced, not refused. A file that cannot be read, or is no
program, is reported as such; only a path at which nothing can be told to stand is a fault of the
whole.
-/

set_option autoImplicit false

namespace DocSig

/-- What a source gives by some parser. -/
def Extraction.ofSource (parser : Php.Parser) (qualified : Bool) (source : Text) :
    Except Fault Extraction := do
  return .ofOutline (← Php.outlineOf parser source) qualified

/-- What one file gave, or why it gave nothing. -/
structure FileReport where
  path : Path
  outcome : Except Fault Extraction

def FileReport.shown (report : FileReport) : Report := ⟨report.path.shown, report.outcome⟩

namespace Scan

/-- What the content of a file gives, which may be an error. -/
def ofContent (parser : Php.Parser) (qualified : Bool) (path : Path) :
    Except Text Bytes → Except Fault Extraction
  | .ok bytes => Extraction.ofSource parser qualified (Utf8.decodeLossy bytes)
  | .error reason => .error (.unreadable path reason)

def file (parser : Php.Parser) (files : FileSystem) (qualified : Bool) (path : Path) :
    FileReport :=
  ⟨path, ofContent parser qualified path (files.read path)⟩

/-- The files of a folder that have one of some extensions, in the order of their paths. Entries
that the walk cannot read are passed over. -/
def filesIn (files : FileSystem) (extensions : List Text) (folder : Path) : List Path :=
  (((files.walk folder).filterMap Except.toOption).filter fun path =>
    files.isFile path && path.hasExtension extensions).mergeSort Path.notAfter

/-- The reports on the files that a path stands for. -/
def path (parser : Php.Parser) (files : FileSystem) (options : ScanOptions) (path : Path) :
    Except Fault (List FileReport) :=
  match files.kind path with
  | .error reason => .error (.unreadable path reason)
  | .ok kind =>
    let chosen := if kind = .folder then filesIn files options.extensions path else [path]
    .ok (chosen.map (file parser files options.qualified))

def paths (parser : Php.Parser) (files : FileSystem) (options : ScanOptions)
    (given : List Path) : Except Fault (List FileReport) := do
  return (← given.mapM (path parser files options)).flatten

end Scan

end DocSig
