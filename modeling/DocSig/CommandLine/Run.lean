import DocSig.CommandLine.Arguments
import DocSig.Php.Parser
import DocSig.Scan
import DocSig.Settings.Document
import DocSig.Settings.Location

/-!
A run of the command: what it writes and how it ends.

Nothing is written unless the settings can be used and it can be told what stands at every path.
Then the reports of all paths are written, in the order of the arguments, and a file that is no
program or cannot be read only shows in the exit code.
-/

set_option autoImplicit false

namespace DocSig.CommandLine

/-- What a run leaves: its exit code, its output, and what it says beside the output. -/
structure Outcome where
  code : Nat
  output : Text
  notice : Text
deriving Repr, BEq, DecidableEq

def versionLine : Text := "phpdoc-extract 0.1.0\n".toList

def usage : Text :=
  "Usage: phpdoc-extract [OPTIONS] <PATH>...

Options:
      --format <FORMAT>    Output format: line or json
      --config <FILE>      Settings file to use instead of the usual ones
      --qualify-doc-types  Tell class names in comments in full
  -v, --verbose...         Say more
  -h, --help               Print help
  -V, --version            Print version
".toList

/-- The readers that a run relies on: of PHP and of settings documents. -/
structure Tools where
  parser : Php.Parser
  settings : Settings.Reader

def Tools.own : Tools := ⟨Php.parser, Settings.ofDocument⟩

def refusal (fault : Fault) : Outcome := ⟨2, [], "error: ".toList ++ fault.message ++ ['\n']⟩

/-- The reports that some arguments ask for, with the format to write them in. -/
def reports (tools : Tools) (files : FileSystem) (given : Arguments) :
    Except Fault (OutputFormat × List FileReport) := do
  let settings ← Settings.load tools.settings files given.settings
  let options := { settings.scan with qualified := settings.scan.qualified || given.qualified }
  let reports ← Scan.paths tools.parser files options given.paths
  return (given.format.getD settings.format, reports)

def noticeOf (report : FileReport) : Text :=
  match report.outcome with
  | .ok _ => []
  | .error fault => report.path.shown ++ ": ".toList ++ fault.message ++ ['\n']

/-- A run that has its reports. -/
def delivery (format : OutputFormat) (reports : List FileReport) : Outcome :=
  let failed := reports.any fun report => report.outcome matches .error _
  ⟨if failed then 1 else 0, Report.render format (reports.map FileReport.shown),
    reports.flatMap noticeOf⟩

def runWith (tools : Tools) (files : FileSystem) (given : Arguments) : Outcome :=
  match reports tools files given with
  | .ok (format, reports) => delivery format reports
  | .error fault => refusal fault

def run (tools : Tools) (files : FileSystem) (args : List Text) : Outcome :=
  match Arguments.read args with
  | .ok given => runWith tools files given
  | .error .version => ⟨0, versionLine, []⟩
  | .error .help => ⟨0, usage, []⟩
  | .error .misuse => ⟨2, [], usage⟩

end DocSig.CommandLine
