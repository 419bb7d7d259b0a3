import DocSig.Settings.Basic
import DocSig.Text.LineIndex

/-!
The arguments of the command.

They are read from left to right, and reading ends at the first one that asks for the version or
for help or that is misused. An option takes its value from behind `=` or from the next argument,
which must not look like an option itself. Only `-v` may be repeated.
-/

set_option autoImplicit false

namespace DocSig.CommandLine

/-- What the arguments ask for. -/
structure Arguments where
  format : Option OutputFormat := none
  settings : Option Path := none
  qualified : Bool := false
  verbosity : Nat := 0
  paths : List Path := []
deriving Repr, BEq, DecidableEq

/-- Why no files are to be read. -/
inductive Ending where
  | version
  | help
  | misuse
deriving Repr, BEq, DecidableEq

namespace Arguments

/-- What one more argument makes of those before it. -/
abbrev Outcome := Except Ending Arguments

def setFormat (given : Arguments) (name : Text) : Outcome :=
  match given.format, OutputFormat.ofName? name with
  | none, some format => .ok { given with format := some format }
  | _, _ => .error .misuse

def setSettings (given : Arguments) (path : Text) : Outcome :=
  if given.settings.isSome ∨ path.isEmpty then .error .misuse
  else .ok { given with settings := some path.bytes }

def setQualified (given : Arguments) : Outcome :=
  if given.qualified then .error .misuse else .ok { given with qualified := true }

def addVerbosity (given : Arguments) : Arguments := { given with verbosity := given.verbosity + 1 }

def addPath (given : Arguments) (path : Text) : Outcome :=
  if path.isEmpty then .error .misuse else .ok { given with paths := given.paths ++ [path.bytes] }

def addLetter (given : Arguments) (letter : Char) : Outcome :=
  if letter = 'v' then .ok given.addVerbosity
  else if letter = 'V' then .error .version
  else if letter = 'h' then .error .help
  else .error .misuse

def addFlag (given : Arguments) (name : Text) : Outcome :=
  if name = "qualify-doc-types".toList then given.setQualified
  else if name = "verbose".toList then .ok given.addVerbosity
  else if name = "version".toList then .error .version
  else if name = "help".toList then .error .help
  else .error .misuse

def valued? (name : Text) : Option (Arguments → Text → Outcome) :=
  if name = "format".toList then some setFormat
  else if name = "config".toList then some setSettings
  else none

/-- Whether an argument can be the value of an option: it does not start with a dash, or it is
just one. -/
def isValue (arg : Text) : Bool := arg.head? != some '-' || arg == ['-']

def readFrom (given : Arguments) : List Text → Outcome
  | [] => .ok given
  | ['-', '-'] :: paths => paths.foldlM addPath given
  | ('-' :: '-' :: long) :: args =>
    let name := long.takeWhile (· != '=')
    match valued? name, long.dropWhile (· != '='), args with
    | some add, _ :: value, args => do readFrom (← add given value) args
    | some add, [], value :: args => do
      if isValue value then readFrom (← add given value) args else throw .misuse
    | some _, [], [] => .error .misuse
    | none, [], args => do readFrom (← given.addFlag name) args
    | none, _ :: _, _ => .error .misuse
  | ('-' :: letter :: letters) :: args => do
    readFrom (← (letter :: letters).foldlM addLetter given) args
  | path :: args => do readFrom (← given.addPath path) args

/-- Reads all arguments, of which at least one has to be a path. -/
def read (args : List Text) : Outcome := do
  let given ← readFrom {} args
  if given.paths.isEmpty then throw .misuse else return given

end Arguments

end DocSig.CommandLine
