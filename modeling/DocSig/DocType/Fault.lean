import DocSig.Text.Basic

/-!
What can be wrong with a written type, and the words for it.
-/

set_option autoImplicit false

namespace DocSig

/-- Why a text does not begin with a type. -/
inductive TypeFault where
  /-- The text ends where a type has to start. -/
  | endOfType
  /-- No type starts with this character. -/
  | unexpected (found : Char)
  /-- The type is complete, but neither white space nor the end follows it. -/
  | unexpectedAfter (found : Char)
  /-- The text ends after a `|`. -/
  | missingMember
  /-- Another character, or the end, stands where `wanted` has to. -/
  | expected (wanted : Char) (found : Option Char)
  | unterminatedString
  /-- A name that ends in a backslash. -/
  | incompleteName (name : Text)
  /-- Nothing follows the `::` after a name. -/
  | missingConstant (name : Text)
  /-- Angle brackets with nothing between them. -/
  | noArguments (name : Text)
  /-- Brackets nest deeper than the reader's allowance, which no text is long enough for. -/
  | tooDeep
deriving Repr, BEq, DecidableEq

def TypeFault.message : TypeFault → Text
  | .endOfType => "unexpected end of type".toList
  | .unexpected found => "unexpected character ".toList ++ Text.quoted [found]
  | .unexpectedAfter found =>
    "unexpected character ".toList ++ Text.quoted [found] ++ " after type".toList
  | .missingMember => "expected type after ".toList ++ Text.quoted ['|']
  | .expected wanted (some found) =>
    "expected ".toList ++ Text.quoted [wanted] ++ ", found ".toList ++ Text.quoted [found]
  | .expected wanted none =>
    "expected ".toList ++ Text.quoted [wanted] ++ ", found end of type".toList
  | .unterminatedString => "unterminated string literal".toList
  | .incompleteName name => "incomplete name ".toList ++ Text.quoted name
  | .missingConstant name =>
    "expected constant name after ".toList ++ Text.quoted (name ++ [':', ':'])
  | .noArguments name => Text.quoted (name ++ ['<', '>']) ++ " has no type arguments".toList
  | .tooDeep => "type is nested too deeply".toList

end DocSig
