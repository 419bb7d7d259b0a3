import DocSig.Report.Basic

/-!
The settings of a run.

They are read from documents, of which nothing is taken for granted but that one document always
gives the same (`Settings.Reader`).
-/

set_option autoImplicit false

namespace DocSig

/-- Which files of a folder are read, and how their types are told. -/
structure ScanOptions where
  /-- The extensions of the files to read, without their dot. -/
  extensions : List Text := ["php".toList]
  /-- Whether class names in comments are told in full. -/
  qualified : Bool := false
deriving Repr, BEq, DecidableEq

/-- What can be set for a run. -/
structure Settings where
  format : OutputFormat := .line
  scan : ScanOptions := {}
deriving Repr, BEq, DecidableEq

/-- A reader of settings documents. Its errors are words for what is wrong. -/
abbrev Settings.Reader := Text → Except Text Settings

end DocSig
