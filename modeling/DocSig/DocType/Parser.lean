import DocSig.DocType.Basic
import DocSig.DocType.Fault
import DocSig.DocType.Words

/-!
Reading a type expression from the start of a text.

A `Cursor` holds the text that is left and the number of open brackets. White space counts as
nothing inside brackets; outside them only spaces and tabs may stand around `|`, `&` and the
`:` of a callable, so that a type never goes on in the next line.

Each construct is a reader built from the readers of its parts, which it takes as arguments.
`readUnion` and `readTerm` close the circle; they count down an allowance that `parseType`
sets from the length of the text.
-/

set_option autoImplicit false

namespace DocSig.DocType

/-- The text that is left to read and the number of brackets open around it. -/
structure Cursor where
  rest : Text
  depth : Nat
deriving Repr, BEq, DecidableEq

namespace Cursor

def skipBlank (here : Cursor) : Cursor := ⟨here.rest.trimStart, here.depth⟩

/-- Past the white space that may separate the parts of a type here. -/
def skipSeparators (here : Cursor) : Cursor :=
  if 0 < here.depth then here.skipBlank else ⟨here.rest.dropWhile isSpaceOrTab, here.depth⟩

def skipOptional (start : Text) (here : Cursor) : Cursor :=
  ⟨here.rest.dropOptional start, here.depth⟩

def enter (here : Cursor) (rest : Text) : Cursor := ⟨rest, here.depth + 1⟩

def leave (here : Cursor) : Cursor := ⟨here.rest, here.depth - 1⟩

end Cursor

/-- A reader takes something off the front of a text, or says what is wrong with it. -/
abbrev Reader (α : Type) := Cursor → Except TypeFault (α × Cursor)

def expect (wanted : Char) (here : Cursor) : Except TypeFault Cursor :=
  match here.rest.trimStart with
  | [] => .error (.expected wanted none)
  | c :: rest =>
    if c = wanted then .ok ⟨rest, here.depth⟩ else .error (.expected wanted (some c))

def moreAlternatives (member : Reader DocType) : Nat → Reader (List DocType)
  | 0, _ => .error .tooDeep
  | allowance + 1, here =>
    match here.skipSeparators.rest with
    | '|' :: rest =>
      let next := (Cursor.mk rest here.depth).skipSeparators
      if next.rest.isEmpty then .error .missingMember
      else do
        let (type, here) ← member next
        let (types, here) ← moreAlternatives member allowance here
        return (type :: types, here)
    | _ => .ok ([], here)

/-- The union of one or more types; a member that is a union itself gives its own members. -/
def unionOf (first : DocType) (others : List DocType) : DocType :=
  if others.isEmpty then first else .union ((first :: others).flatMap alternatives)

def alternation (member : Reader DocType) (allowance : Nat) : Reader DocType := fun here => do
  let (first, here) ← member here
  let (others, here) ← moreAlternatives member allowance here
  return (unionOf first others, here)

/-- Behind an `&`: a variable, which the `&` then passes by reference, or nothing. -/
def startsVariable : Text → Bool
  | [] => true
  | c :: _ => c == '$' || c == '.'

/-- Reads the members of an intersection behind its first one; it stops before an `&` that
passes a variable by reference. -/
def moreConjuncts (member : Reader DocType) : Nat → Reader (List DocType)
  | 0, _ => .error .tooDeep
  | allowance + 1, here =>
    match here.skipSeparators.rest with
    | '&' :: rest =>
      let next := (Cursor.mk rest here.depth).skipSeparators
      if startsVariable next.rest then .ok ([], here)
      else do
        let (type, here) ← member next
        let (types, here) ← moreConjuncts member allowance here
        return (type :: types, here)
    | _ => .ok ([], here)

/-- The intersection of one or more types. -/
def intersectionOf (first : DocType) (others : List DocType) : DocType :=
  if others.isEmpty then first else .intersection (first :: others)

def conjunction (member : Reader DocType) (allowance : Nat) : Reader DocType := fun here => do
  let (first, here) ← member here
  let (others, here) ← moreConjuncts member allowance here
  return (intersectionOf first others, here)

def wrapArrays (type : DocType) : Text → DocType × Text
  | '[' :: ']' :: rest => wrapArrays (.array type) rest
  | rest => (type, rest)

/-- Reads the items of a list up to its closing bracket; a comma may stand before it. -/
def listUntil {α : Type} (item : Reader α) (close : Char) : Nat → Reader (List α)
  | 0, _ => .error .tooDeep
  | allowance + 1, here =>
    if here.rest.trimStart.head? = some close then
      .ok ([], ⟨here.rest.trimStart.tail, here.depth⟩)
    else do
      let (x, here) ← item here.skipBlank
      match here.rest.trimStart with
      | ',' :: rest => do
        let (xs, here) ← listUntil item close allowance ⟨rest, here.depth⟩
        return (x :: xs, here)
      | _ => do
        let here ← expect close here
        return ([x], here)

/-- Reads what parentheses hold, up to the closing one: a type, or the condition
`T is [not] U ? V : W`, whose subject is kept as canonical text. -/
def grouped (union : Reader DocType) : Reader DocType := fun here => do
  let (first, here) ← union here.skipBlank
  let (word, rest) := readName here.rest.trimStart
  if word = "is".toList then
    let rest := Text.trimStart rest
    let (mark, afterMark) := readName rest
    let negated := mark == "not".toList
    let (target, here) ← union ⟨if negated then afterMark else rest, here.depth⟩
    let here ← expect '?' here
    let (positive, here) ← union here
    let here ← expect ':' here
    let (negative, here) ← union here
    let here ← expect ')' here
    return (.conditional first.text negated target positive negative, here)
  else
    let here ← expect ')' here
    return (first, here)

/-- Reads one argument of a generic type: `*`, or a type behind an optional variance mark. -/
def typeArgument (union : Reader DocType) : Reader DocType := fun here =>
  match here.rest.trimStart with
  | '*' :: rest => .ok (.name ['*'], ⟨rest, here.depth⟩)
  | start =>
    let (word, rest) := readName start
    if isVariance word && rest.head?.any isBlank then union ⟨Text.trimStart rest, here.depth⟩
    else union ⟨start, here.depth⟩

/-- The key that may start a shape entry, and the rest. -/
def readKey : Text → Option (Text × Text)
  | [] => none
  | c :: s =>
    if c = '\'' ∨ c = '"' then (Text.readQuoted c s).map fun (body, rest) => (c :: body, rest)
    else if c.isDigit then some (readNumber (c :: s))
    else if isNameStart c then some (readName (c :: s))
    else none

/-- The key of a shape entry up to its `:`, whether a `?` marks the entry as optional, and
the rest. -/
def readKeyed (s : Text) : Option (Text × Bool × Text) :=
  match readKey s with
  | none => none
  | some (key, rest) =>
    match Text.trimStart rest with
    | '?' :: rest =>
      match Text.trimStart rest with
      | ':' :: rest => some (key, true, rest)
      | _ => none
    | ':' :: rest => some (key, false, rest)
    | _ => none

/-- Reads one entry of a shape; the mark `...` of an open shape is no entry. -/
def shapeEntry (union : Reader DocType) : Reader (Option (ShapeEntry DocType)) := fun here =>
  match here.rest.trimStart with
  | '.' :: '.' :: '.' :: rest => .ok (none, ⟨rest, here.depth⟩)
  | start =>
    match readKeyed start with
    | some (key, isOptional, rest) => do
      let (value, here) ← union ⟨rest, here.depth⟩
      return (some ⟨some key, isOptional, value⟩, here)
    | none => do
      let (value, here) ← union ⟨start, here.depth⟩
      return (some ⟨none, false, value⟩, here)

def skipVariable : Text → Text
  | '$' :: s => s.dropWhile isNameChar
  | s => s

/-- Reads one parameter of a callable: a type, and then `&`, `...`, a variable and the `=` of
an optional parameter, none of which is kept. -/
def parameter (union : Reader DocType) : Reader DocType := fun here => do
  let (type, here) ← union here
  let here := (here.skipBlank.skipOptional ['&']).skipOptional ['.', '.', '.']
  let here := (Cursor.mk (skipVariable here.rest) here.depth).skipBlank.skipOptional ['=']
  return (type, here)

/-- Reads a type that begins with a name: the name alone, a constant, or a generic, shape or
callable type. -/
def named (union term : Reader DocType) (allowance : Nat) : Reader DocType := fun here =>
  let (base, rest) := readName here.rest
  if base.getLast? = some '\\' then .error (.incompleteName base)
  else
    match rest with
    | ':' :: ':' :: rest =>
      let constant := rest.takeWhile isConstantChar
      if constant.isEmpty then .error (.missingConstant base)
      else .ok (.literal (base ++ ':' :: ':' :: constant),
        ⟨rest.dropWhile isConstantChar, here.depth⟩)
    | '<' :: rest => do
      let (arguments, here) ← listUntil (typeArgument union) '>' allowance (here.enter rest)
      if arguments.isEmpty then .error (.noArguments base)
      else return (.generic base arguments, here.leave)
    | '\x7b' :: rest => do
      let (entries, here) ← listUntil (shapeEntry union) '\x7d' allowance (here.enter rest)
      return (.shape base (entries.filterMap id), here.leave)
    | '(' :: inside =>
      if isCallableName base then do
        let (parameters, here) ← listUntil (parameter union) ')' allowance (here.enter inside)
        let here := here.leave
        match here.skipSeparators.rest with
        | ':' :: rest => do
          let (result, here) ← term (Cursor.mk rest here.depth).skipSeparators
          return (.callable base parameters (some result), here)
        | _ => return (.callable base parameters none, here)
      else .ok (.name base, ⟨rest, here.depth⟩)
    | rest => .ok (.name base, ⟨rest, here.depth⟩)

def atom (union term : Reader DocType) (allowance : Nat) : Reader DocType := fun here =>
  let here := if 0 < here.depth then here.skipBlank else here
  match here.rest with
  | [] => .error .endOfType
  | c :: rest =>
    if c = '?' then do
      let (inner, here) ← term ⟨rest, here.depth⟩
      return (.nullable inner, here)
    else if c = '(' then do
      let (inner, here) ← grouped union (here.enter rest)
      return (inner, here.leave)
    else if c = '\'' ∨ c = '"' then
      match Text.readQuoted c rest with
      | none => .error .unterminatedString
      | some (body, rest) => .ok (.literal (c :: body), ⟨rest, here.depth⟩)
    else if startsNumber (c :: rest) then
      let (number, rest) := readNumber (c :: rest)
      .ok (.literal number, ⟨rest, here.depth⟩)
    else if isNameStart c then named union term allowance here
    else .error (.unexpected c)

def arrayed (atom : Reader DocType) : Reader DocType := fun here => do
  let (type, here) ← atom here
  let (type, rest) := wrapArrays type here.rest
  return (type, ⟨rest, here.depth⟩)

mutual

/-- Reads a type, at most `allowance` constructs deep. -/
def readUnion : Nat → Reader DocType
  | 0 => fun _ => .error .tooDeep
  | allowance + 1 =>
    alternation (conjunction (readTerm allowance) allowance) allowance

/-- Reads a type that stands outside of `|` and `&`, at most `allowance` constructs deep. -/
def readTerm : Nat → Reader DocType
  | 0 => fun _ => .error .tooDeep
  | allowance + 1 =>
    arrayed (atom (readUnion allowance) (readTerm allowance) allowance)

end

/-- Two steps for each character and two to see the end are enough for every text. -/
def allowanceFor (s : Text) : Nat := 2 * s.length + 2

/-- The type at the start of a text, and the rest, which is empty or starts with white
space. -/
def parseType (s : Text) : Except TypeFault (DocType × Text) := do
  let (type, here) ← readUnion (allowanceFor s) ⟨s, 0⟩
  match here.rest with
  | [] => return (type, [])
  | c :: rest => if isBlank c then return (type, c :: rest) else .error (.unexpectedAfter c)

end DocSig.DocType
