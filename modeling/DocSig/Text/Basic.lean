/-!
Text as a list of characters, with the character classes and cuts that every
reader of this library shares: white space, ASCII case, and lines.
-/

set_option autoImplicit false

namespace DocSig

/-- Text is a list of Unicode scalar values; its order is by code point. -/
abbrev Text := List Char

def isBlank (c : Char) : Bool :=
  let n := c.toNat
  (9 ≤ n && n ≤ 13) || n == 0x20 || n == 0x85 || n == 0xA0 || n == 0x1680 ||
    (0x2000 ≤ n && n ≤ 0x200A) || n == 0x2028 || n == 0x2029 || n == 0x202F ||
    n == 0x205F || n == 0x3000

def isAsciiBlank (c : Char) : Bool :=
  c == ' ' || c == '\t' || c == '\n' || c == '\x0c' || c == '\r'

/-- A space or a tab, which never ends a line. -/
def isSpaceOrTab (c : Char) : Bool := c == ' ' || c == '\t'

def isAscii (c : Char) : Bool := c.toNat < 128

namespace Text

def trimStart (s : Text) : Text := s.dropWhile isBlank

def trimEnd (s : Text) : Text := (s.reverse.dropWhile isBlank).reverse

def trim (s : Text) : Text := trimEnd (trimStart s)

/-- ASCII letters in lower case, all other characters as they are. -/
def lower (s : Text) : Text := s.map Char.toLower

/-- Two texts that differ at most in the case of ASCII letters. -/
def sameIgnoringCase (s t : Text) : Bool := lower s == lower t

def after? : Text → Text → Option Text
  | [], s => some s
  | _ :: _, [] => none
  | a :: start, c :: s => if a = c then after? start s else none

def before? (ending s : Text) : Option Text :=
  (after? ending.reverse s.reverse).map List.reverse

/-- The text after `start` if it begins so, else the text as it is. -/
def dropOptional (s start : Text) : Text := (after? start s).getD s

/-- Lines end at a line feed, which may follow one carriage return; a last line
without its line feed keeps all its characters. -/
def lines : Text → List Text
  | [] => []
  | '\n' :: s => [] :: lines s
  | '\r' :: '\n' :: s => [] :: lines s
  | c :: s =>
    match lines s with
    | [] => [[c]]
    | line :: more => (c :: line) :: more

/-- The rest of a quoted text up to its closing quote, and what follows it; a backslash keeps
the character after it from closing the text. -/
def readQuoted (quote : Char) : Text → Option (Text × Text)
  | [] => none
  | '\\' :: c :: s => (readQuoted quote s).map fun (body, rest) => ('\\' :: c :: body, rest)
  | c :: s =>
    if c = quote then some ([c], s)
    else (readQuoted quote s).map fun (body, rest) => (c :: body, rest)

/-- The parts of a text between its separators; one more part than there are separators. -/
def splitOn (separator : Char) : Text → List Text
  | [] => [[]]
  | c :: s =>
    if c = separator then [] :: splitOn separator s
    else
      match splitOn separator s with
      | [] => [[c]]
      | part :: parts => (c :: part) :: parts

def join (separator : Text) (parts : List Text) : Text := separator.intercalate parts

def quoted (s : Text) : Text := '`' :: (s ++ ['`'])

def ofNat (n : Nat) : Text := (toString n).toList

end Text

end DocSig
