import DocSig.DocType.Parser
import DocSig.Docblock.Tag
import DocSig.Text.Alphanumeric

/-!
Documentation comments: the types that their `@param` and `@return` tags declare.

`Docblock.parse` reads a whole comment. Tags are read in order and the first one that is
malformed decides the fault; tags of other names are not looked at.
-/

set_option autoImplicit false

namespace DocSig

inductive DocFault where
  /-- The comment does not stand between its delimiters. -/
  | unterminated
  /-- A tag that has to give a type gives none. -/
  | missingType (tag : Text)
  /-- A parameter tag names no variable. -/
  | missingVariable
  /-- The text in the place of a type is not one. -/
  | invalidType (tag : Text) (fault : TypeFault)
  /-- More than one result is declared. -/
  | multipleResults (count : Nat)
deriving Repr, BEq, DecidableEq

def DocFault.message : DocFault → Text
  | .unterminated => "docblock is not terminated by ".toList ++ Text.quoted "*/".toList
  | .missingType tag => Text.quoted tag ++ " tag has no type".toList
  | .missingVariable => Text.quoted "@param".toList ++ " tag has no parameter variable".toList
  | .invalidType tag fault =>
    "invalid type in ".toList ++ Text.quoted tag ++ " tag: ".toList ++ fault.message
  | .multipleResults count =>
    Text.ofNat count ++ ' ' :: Text.quoted "@return".toList ++
      " tags found, expected at most one".toList

/-- A declared parameter: its variable with the `$`, and its type. -/
structure Parameter where
  name : Text
  type : Alternatives
deriving Repr, BEq, DecidableEq

/-- The types that a comment declares, in the order of their tags. -/
structure Docblock where
  parameters : List Parameter
  results : List Alternatives
deriving Repr, BEq, DecidableEq

namespace Docblock

/-- A tag's body that goes on with the variable gives no type. -/
def lacksType (body : Text) : Bool :=
  body.isEmpty || "$".toList.isPrefixOf body || "&$".toList.isPrefixOf body ||
    "...$".toList.isPrefixOf body

def parseTagType (label body : Text) : Except DocFault (Alternatives × Text) :=
  let body := body.trimStart
  if lacksType body then .error (.missingType label)
  else
    match DocType.parseType body with
    | .error fault => .error (.invalidType label fault)
    | .ok (type, rest) => .ok (type.toAlternatives, rest)

def isVariableChar (c : Char) : Bool := isAlphanumeric c || c == '_'

/-- The variable behind a parameter's type, with its `$`; `&` and `...` may stand before it. -/
def variableAt (rest : Text) : Option Text :=
  match (rest.trimStart.dropOptional ['&']).dropOptional ['.', '.', '.'] with
  | '$' :: s =>
    let word := s.takeWhile isVariableChar
    if word.isEmpty then none else some ('$' :: word)
  | _ => none

/-- The parameter that the body of a `@param` tag declares. -/
def parseParameter (body : Text) : Except DocFault Parameter := do
  let (type, rest) ← parseTagType "@param".toList body
  match variableAt rest with
  | none => .error .missingVariable
  | some word => return ⟨word, type⟩

def ofTags : List Tag → Except DocFault Docblock
  | [] => .ok ⟨[], []⟩
  | tag :: tags =>
    if tag.label = "@param".toList then do
      let parameter ← parseParameter tag.body
      let doc ← ofTags tags
      return ⟨parameter :: doc.parameters, doc.results⟩
    else if tag.label = "@return".toList then do
      let (type, _) ← parseTagType tag.label tag.body
      let doc ← ofTags tags
      return ⟨doc.parameters, type :: doc.results⟩
    else ofTags tags

def parse (comment : Text) : Except DocFault Docblock :=
  match tags? comment with
  | none => .error .unterminated
  | some tags => ofTags tags

end Docblock

end DocSig
