import DocSig.Toml.Scalar

/-!
Reading a TOML document, whose line ends are line feeds once it is read.

Values nest at most 80 deep. A reader of arrays or of braces takes the reader of the values
within, and counts the items down from the length of the text.
-/

set_option autoImplicit false

namespace DocSig.Toml

abbrev Reader (α : Type) := StateT Text Option α

/-- A control character other than a tab, which no text may hold as it is. -/
def isForbidden (c : Char) : Bool := (c.toNat < 0x20 && c != '\t') || c.toNat == 0x7F

/-- The text behind blanks, line ends and comments; `inComment` if a comment has begun. -/
def afterGap (inComment : Bool) : Text → Option Text
  | [] => some []
  | '\n' :: s => afterGap false s
  | c :: s =>
    if inComment then if isForbidden c then none else afterGap true s
    else if isSpaceOrTab c then afterGap false s
    else if c = '#' then afterGap true s
    else some (c :: s)

/-- The text behind the end of a line, before which only blanks and a comment may stand. -/
def afterLine (inComment : Bool) : Text → Option Text
  | [] => some []
  | '\n' :: s => some s
  | c :: s =>
    if inComment then if isForbidden c then none else afterLine true s
    else if isSpaceOrTab c then afterLine false s
    else if c = '#' then afterLine true s
    else none

def hexadecimal? (count : Nat) (s : Text) : Option (Nat × Text) :=
  let front := s.take count
  if front.length = count ∧ front.all (isDigitBelow 16) then
    some (numberOf 16 front, s.drop count)
  else none

def scalar? (n : Nat) : Option Char :=
  if n < 0xD800 ∨ (0xDFFF < n ∧ n < 0x110000) then some (Char.ofNat n) else none

def numbered? (count : Nat) (s : Text) : Option (Char × Text) := do
  let (n, rest) ← hexadecimal? count s
  return (← scalar? n, rest)

def escape? : Text → Option (Char × Text)
  | 'b' :: s => some ('\x08', s)
  | 't' :: s => some ('\t', s)
  | 'n' :: s => some ('\n', s)
  | 'f' :: s => some ('\x0c', s)
  | 'r' :: s => some ('\r', s)
  | 'e' :: s => some ('\x1b', s)
  | '"' :: s => some ('"', s)
  | '\\' :: s => some ('\\', s)
  | 'x' :: s => numbered? 2 s
  | 'u' :: s => numbered? 4 s
  | 'U' :: s => numbered? 8 s
  | _ => none

/-- The text behind a backslash that ends its line, and behind all blanks and line ends that
follow. -/
def afterFold? (s : Text) : Option Text :=
  let isGap (c : Char) : Bool := isSpaceOrTab c || c == '\n'
  match s.dropWhile isSpaceOrTab with
  | '\n' :: rest => some (rest.dropWhile isGap)
  | _ => none

/-- What a string within quotes allows. -/
structure QuoteStyle where
  quote : Char
  escapes : Bool
  lines : Bool

namespace QuoteStyle

def closing (style : QuoteStyle) : Nat := if style.lines then 3 else 1

/-- The text of a string up to its closing quotes, and the text behind it. Two more quotes before
the closing ones belong to a string of several lines. -/
def body (style : QuoteStyle) : Nat → Text → Option (Text × Text)
  | 0, _ => none
  | limit + 1, s =>
    let quotes := (s.takeWhile (· == style.quote)).length
    let more (c : Char) (rest : Text) : Option (Text × Text) := do
      let (text, rest) ← body style limit rest
      return (c :: text, rest)
    if style.closing ≤ quotes then
      let inside := if style.lines then min (quotes - 3) 2 else 0
      some (List.replicate inside style.quote, s.drop (inside + style.closing))
    else
      match s with
      | [] => none
      | '\n' :: s => if style.lines then more '\n' s else none
      | c :: s =>
        if c = '\\' ∧ style.escapes then
          match (if style.lines then afterFold? s else none) with
          | some rest => body style limit rest
          | none => do
            let (c, rest) ← escape? s
            more c rest
        else if isForbidden c then none
        else more c s

end QuoteStyle

def unifyLineEnds : Text → Text
  | [] => []
  | '\r' :: '\n' :: s => '\n' :: unifyLineEnds s
  | c :: s => c :: unifyLineEnds s

namespace Reader

def peek : Reader (Option Char) := do return (← get).head?

/-- Takes a text if it comes next; says whether it did. -/
def accept (wanted : Text) : Reader Bool := do
  match Text.after? wanted (← get) with
  | some rest =>
    set rest
    return true
  | none => return false

def expect (wanted : Text) : Reader Unit := do
  if ← accept wanted then return () else failure

def blanks : Reader Unit := modify fun s => s.dropWhile isSpaceOrTab

def gap : Reader Unit := do
  set (← (afterGap false (← get) : Option Text))

def lineEnd : Reader Unit := do
  set (← (afterLine false (← get) : Option Text))

def takeWhile (fits : Char → Bool) : Reader Text := do
  let s ← get
  set (s.dropWhile fits)
  return s.takeWhile fits

def quoted (style : QuoteStyle) : Reader Text := do
  let s ← get
  let (text, rest) ← (style.body (s.length + 1) s : Option (Text × Text))
  set rest
  return text

def lineString : Reader Text := do
  if ← accept ['"'] then quoted ⟨'"', true, false⟩
  else do
    expect ['\'']
    quoted ⟨'\'', false, false⟩

/-- Reads a string; one in three quotes may have several lines, of which an empty first one does
not count. -/
def string : Reader Text := do
  if ← accept ['"', '"', '"'] then
    let _ ← accept ['\n']
    quoted ⟨'"', true, true⟩
  else if ← accept ['\'', '\'', '\''] then
    let _ ← accept ['\n']
    quoted ⟨'\'', false, true⟩
  else lineString

def isKeyChar (c : Char) : Bool := c.isAlphanum || c == '_' || c == '-'

def keyPart : Reader Text := do
  if (← peek).any isKeyChar then takeWhile isKeyChar else lineString

def keyParts : Nat → Reader (List Text)
  | 0 => failure
  | limit + 1 => do
    blanks
    let part ← keyPart
    blanks
    if ← accept ['.'] then
      let parts ← keyParts limit
      return part :: parts
    else return [part]

def key : Reader (List Text) := do keyParts ((← get).length + 1)

/-- Reads items up to a closing bracket, with commas between them; one may follow the last. -/
def itemsUntil {α : Type} (close : Char) (item : Reader α) : Nat → Reader (List α)
  | 0 => failure
  | limit + 1 => do
    gap
    if ← accept [close] then return []
    else
      let first ← item
      gap
      if ← accept [','] then
        let others ← itemsUntil close item limit
        return first :: others
      else
        expect [close]
        return [first]

def pair (value : Reader Value) : Reader (List Text × Value) := do
  let path ← key
  expect ['=']
  blanks
  return (path, ← value)

def endsWord (c : Char) : Bool := " \t\n\r,=#[]\x7b\x7d\"'".toList.contains c

/-- Reads the spelling of a value without quotes; a date may have its time behind one blank. -/
def word : Reader Text := do
  let first ← takeWhile (!endsWord ·)
  match ← get with
  | ' ' :: c :: _ =>
    if afterDate? first = some [] ∧ c.isDigit then
      expect [' ']
      let time ← takeWhile (!endsWord ·)
      return first ++ ' ' :: time
    else return first
  | _ => return first

def value : Nat → Reader Value
  | 0 => failure
  | depth + 1 => do
    let limit := (← get).length
    if ← accept ['['] then return .array (← itemsUntil ']' (value depth) limit)
    else if ← accept ['\x7b'] then
      Value.ofPairs? (← itemsUntil '\x7d' (pair (value depth)) limit)
    else if (← peek).any (fun c => c == '"' || c == '\'') then return .string (← string)
    else Value.ofWord? (← word)

def greatestDepth : Nat := 80

def line : Reader Line := do
  if ← accept ['[', '['] then
    let path ← key
    expect [']', ']']
    lineEnd
    return .itemHeader path
  else if ← accept ['['] then
    let path ← key
    expect [']']
    lineEnd
    return .header path
  else
    let (path, value) ← pair (value greatestDepth)
    lineEnd
    return .assignment path value

def lines : Nat → Reader (List Line)
  | 0 => failure
  | limit + 1 => do
    gap
    if (← get).isEmpty then return []
    else
      let first ← line
      let others ← lines limit
      return first :: others

end Reader

/-- The table that a document describes; a byte order mark in front does not count. -/
def parse? (document : Text) : Option Fields := do
  let s := unifyLineEnds (Text.dropOptional document ['\uFEFF'])
  let (lines, _) ← Reader.lines (s.length + 1) s
  Document.ofLines? lines

end DocSig.Toml
