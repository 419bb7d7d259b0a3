import DocSig.CommandLine.Run
import DocSig.Files.Store
import DocSig.Proofs.DocType.Runs
import Mathlib.Data.List.Forall2

/-!
What a run of the command leaves, whatever tools it relies on and whatever the files are.

A run is stopped by settings that are named and cannot be used, or by any path of which it cannot be
told what stands there, and then it writes nothing (`Stopped`). Every other run writes the reports
of all paths, one path after the other, and its exit code only tells whether one of the files
failed: is no program, or cannot be read (`Delivered`).
-/

set_option autoImplicit false

namespace DocSig

open DocType (bind_eq_ok)

section Steps

variable {α β ε δ : Type} {f : α → Except ε β} {xs : List α} {ys : List β}

end Steps

namespace Settings

variable {read : Reader} {files : FileSystem} {path : Path} {settings : Settings}

end Settings

namespace Scan

variable {parser : Php.Parser} {files : FileSystem} {options : ScanOptions} {path : Path}
  {given : List Path}

end Scan

namespace CommandLine

variable {tools : Tools} {files : FileSystem} {given : Arguments}

end CommandLine

end DocSig
