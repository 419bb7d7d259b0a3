import DocSig.Php.Grammar.Functions

/-!
Readers for classes and their members.
-/

set_option autoImplicit false

namespace DocSig.Php.Readers

open Parse

def classesBehind (r : Readers) (keyword : String) : Parse (List Word) := do
  return (← Parse.optional (tryWord keyword) (commas className r.limit)).getD []

def heritage (r : Readers) : Parse Heritage := do
  return ⟨← r.classesBehind "extends", ← r.classesBehind "implements"⟩

/-- The heritage that a declaration of some kind may have. -/
def heritageOf (r : Readers) : DeclarationKind → Parse Heritage
  | .class_ => r.heritage
  | .interface => do return ⟨← r.classesBehind "extends", []⟩
  | .trait => return ⟨[], []⟩
  | .enum => do return ⟨[], ← r.classesBehind "implements"⟩

def assigned (r : Readers) (kind : TokenKind) : Parse Unit := do
  let _ ← ofKind kind
  r.default_

def constants (r : Readers) : Parse Unit := do
  let untyped := (← peekSecond).any (·.isSymbol "=")
  if !untyped then
    let _ ← r.hint
  let constant : Parse Unit := do
    let _ ← ofKind .word
    symbol "="
    let _ ← r.value
  let _ ← commas constant r.limit
  terminator

def properties (r : Readers) : Parse Unit := do
  let _ ← r.hintBeforeName
  r.assigned .var
  if ← trySymbol "\x7b" then r.hooks
  else
    let _ ← many (trySymbol ",") (r.assigned .var) r.limit
    terminator

def adaptation (r : Readers) : Parse Unit := do
  let first ← next
  if !(first.kind == .name || first.kind == .word) then failure
  if ← trySymbol "::" then
    let _ ← ofKind .word
  if ← tryWord "insteadof" then
    let _ ← commas className r.limit
    symbol ";"
  else
    word "as"
    let _ ← Parse.optional (atWord modifierWords) next
    let _ ← Parse.optional (atKind .word) next
    symbol ";"

def traits (r : Readers) : Parse Unit := do
  let _ ← commas className r.limit
  if ← trySymbol "\x7b" then
    let _ ← manyUntil "\x7d" r.adaptation r.limit
    return ()
  else terminator

def method (r : Readers) (start : Nat) (isStatic : Bool) : Parse Member := do
  let _ ← trySymbol "&"
  let name ← ofKind .word
  let head ← r.head
  if ← atSymbol "\x7b" then
    let body ← r.body
    return .method start isStatic name.text head body
  else
    terminator
    return .method start isStatic name.text head []

def member (r : Readers) : Parse Member := do
  let start ← offset
  r.attributes
  if ← tryWord "use" then
    r.traits
    return .other
  else if ← tryWord "case" then
    r.assigned .word
    terminator
    return .other
  else
    let modifiers ← r.modifiers
    if ← tryWord "const" then
      r.constants
      return .other
    else if ← tryWord "function" then r.method start (modifiers.any (·.isWord "static"))
    else if modifiers.isEmpty then failure
    else
      r.properties
      return .other

def members (r : Readers) : Parse (List Member) := do
  symbol "\x7b"
  manyUntil "\x7d" r.member r.limit

def classModifiers : List String := ["abstract", "final", "readonly"]

def classLike (r : Readers) (start : Nat) (kind : DeclarationKind) : Parse Statement := do
  let name ← plainWord
  if kind = .enum then
    let _ ← Parse.optional (trySymbol ":") r.hint
  let heritage ← r.heritageOf kind
  let members ← r.members
  return .classLike start kind name.text heritage members

end DocSig.Php.Readers
