import DocSig.Extraction
import DocSig.Fault
import DocSig.Report.Json

/-!
Reports on files, and the text that a list of them is written as.

A file that cannot be read, or is no program, has a report with that fault. Only the signatures of
the other reports are written: as one line each, or as a JSON array.
-/

set_option autoImplicit false

namespace DocSig

/-- What one file gave, or why it gave nothing, with its path as it is shown. -/
structure Report where
  path : Text
  outcome : Except Fault Extraction

/-- A signature with the file that it stands in. -/
structure Found where
  path : Text
  signature : Signature
deriving DecidableEq

inductive OutputFormat where
  | line
  | json
deriving Repr, BEq, DecidableEq

namespace OutputFormat

def name : OutputFormat → Text
  | .line => "line".toList
  | .json => "json".toList

def ofName? (name : Text) : Option OutputFormat :=
  [line, json].find? fun format => format.name == name

end OutputFormat

namespace Report

def found (report : Report) : List Found :=
  match report.outcome with
  | .ok extraction => extraction.signatures.map fun signature => ⟨report.path, signature⟩
  | .error _ => []

def allFound (reports : List Report) : List Found := reports.flatMap found

def lines (items : List Found) : Text := items.flatMap fun item => item.signature.line ++ ['\n']

def typesJson : Json.Writer TypeSet := Json.on TypeSet.texts (Json.array Json.string)

def foundJson : Json.Writer Found := Json.object
  [Json.field "file".toList (Json.on Found.path Json.string),
    Json.field "name".toList (Json.on (fun item => item.signature.name) Json.string),
    Json.field "params".toList
      (Json.on (fun item => item.signature.parameters) (Json.array typesJson)),
    Json.field "returns".toList (Json.on (fun item => item.signature.results) typesJson)]

/-- Signatures as a JSON document. -/
def document (items : List Found) : Text := Json.array foundJson 0 items ++ ['\n']

def render (format : OutputFormat) (reports : List Report) : Text :=
  match format with
  | .line => lines (allFound reports)
  | .json => document (allFound reports)

end Report

end DocSig
