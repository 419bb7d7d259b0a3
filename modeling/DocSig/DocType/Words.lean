import DocSig.Text.Basic

/-!
The words of a type expression: names, numbers and constants, each cut off the front of a
text.
-/

set_option autoImplicit false

namespace DocSig.DocType

/-- The first character of a name: an ASCII letter, `_`, `\`, `$` or any character outside
ASCII. -/
def isNameStart (c : Char) : Bool :=
  c.isAlpha || c == '_' || c == '\\' || c == '$' || !isAscii c

/-- A later character of a name; `-` and digits may stand here and `$` may not. -/
def isNameChar (c : Char) : Bool :=
  c.isAlphanum || c == '_' || c == '\\' || c == '-' || !isAscii c

/-- A character of a number after its sign. -/
def isNumberChar (c : Char) : Bool := c.isAlphanum || c == '.' || c == '_'

/-- A character of a constant's name after `::`, where `*` stands for any run. -/
def isConstantChar (c : Char) : Bool := c.isAlphanum || c == '_' || c == '*'

/-- The name at the start of a text, empty if none starts there, and the rest. -/
def readName : Text → Text × Text
  | [] => ([], [])
  | c :: s =>
    if isNameStart c then (c :: s.takeWhile isNameChar, s.dropWhile isNameChar) else ([], c :: s)

def readNumber : Text → Text × Text
  | '-' :: s => ('-' :: s.takeWhile isNumberChar, s.dropWhile isNumberChar)
  | s => (s.takeWhile isNumberChar, s.dropWhile isNumberChar)

/-- A number starts with a digit, or with a minus sign before a digit. -/
def startsNumber : Text → Bool
  | '-' :: c :: _ => c.isDigit
  | c :: _ => c.isDigit
  | [] => false

/-- A name that a parameter list may follow: `callable`, `Closure`, `pure-callable` or
`pure-Closure` in any letter case, after any number of backslashes. -/
def isCallableName (name : Text) : Bool :=
  ["callable".toList, "closure".toList, "pure-callable".toList, "pure-closure".toList].contains
    (Text.lower (name.dropWhile (· == '\\')))

def isVariance (word : Text) : Bool :=
  word == "covariant".toList || word == "contravariant".toList

end DocSig.DocType
