import DocSig.Php.Grammar.Classes

/-!
Readers for expressions.

An expression is an operand with operators behind it. Each operator binds with a strength, from 1
for `or` to 26 for `**`; the operators that `operators` takes bind at least as strongly as it is
told.
-/

set_option autoImplicit false

namespace DocSig.Php

/-- How strongly an operator between two operands binds, and whether it groups to the right. -/
def operatorStrength (token : Token) : Option (Nat × Bool) :=
  let isAny (symbols : List String) : Bool := symbols.any token.isSymbol
  if token.kind = .word then
    if token.isWord "or" then some (1, false)
    else if token.isWord "xor" then some (2, false)
    else if token.isWord "and" then some (3, false)
    else if token.isWord "instanceof" then some (24, false)
    else none
  else if isAny ["=", "+=", "-=", "*=", "/=", ".=", "%=", "**=", "&=", "|=", "^=", "<<=", ">>=",
      "??="] then some (8, true)
  else if isAny ["?"] then some (9, false)
  else if isAny ["??"] then some (10, true)
  else if isAny ["||"] then some (11, false)
  else if isAny ["&&"] then some (12, false)
  else if isAny ["|"] then some (13, false)
  else if isAny ["^"] then some (14, false)
  else if isAny ["&"] then some (15, false)
  else if isAny ["==", "!=", "===", "!==", "<>", "<=>"] then some (16, false)
  else if isAny ["<", "<=", ">", ">="] then some (17, false)
  else if isAny ["|>"] then some (18, false)
  else if isAny ["."] then some (19, false)
  else if isAny ["<<", ">>"] then some (20, false)
  else if isAny ["+", "-"] then some (21, false)
  else if isAny ["*", "/", "%"] then some (22, false)
  else if isAny ["**"] then some (26, true)
  else none

def prefixStrength (token : Token) : Option Nat :=
  if token.kind = .cast then some 25
  else if token.isSymbol "!" then some 23
  else if ["+", "-", "~", "@", "++", "--"].any token.isSymbol then some 25
  else if token.isSymbol "&" then some 27
  else none

namespace Readers

open Parse

def bracedValue (r : Readers) : Parse Expr := do
  let value ← r.value
  symbol "\x7d"
  return value

def dynamicVariable (r : Readers) : Parse Unit := do
  let _ ← many (trySymbol "$") (pure ()) r.limit
  if ← trySymbol "\x7b" then
    let _ ← r.bracedValue
    return ()
  else
    let _ ← ofKind .var
    return ()

def memberName (r : Readers) : Parse Unit := do
  let token ← next
  if token.kind = .word ∨ token.kind = .var then return ()
  else if token.isSymbol "$" then r.dynamicVariable
  else if token.isSymbol "\x7b" then
    let _ ← r.bracedValue
    return ()
  else failure

def key (r : Readers) : Parse (Option Expr) := do
  if ← trySymbol "]" then return none
  else
    let key ← r.value
    symbol "]"
    return some key

/-- Whether a piece of punctuation leads to a member. -/
def tryAccess : Parse Bool := do
  if ← trySymbol "->" then return true
  else if ← trySymbol "?->" then return true
  else trySymbol "::"

/-- Keys and members behind an operand, but no calls. -/
def plainAccesses (r : Readers) : Nat → Expr → Parse Expr
  | 0, _ => failure
  | limit + 1, base => do
    if ← trySymbol "[" then r.plainAccesses limit (.index base (← r.key))
    else if ← tryAccess then
      r.memberName
      r.plainAccesses limit (.member base)
    else return base

def accesses (r : Readers) : Nat → Expr → Parse Expr
  | 0, _ => failure
  | limit + 1, base => do
    if ← trySymbol "[" then r.accesses limit (.index base (← r.key))
    else if ← tryAccess then
      r.memberName
      r.accesses limit (.member base)
    else if ← trySymbol "(" then
      match ← r.arguments with
      | some arguments => r.accesses limit (.call base arguments)
      | none => r.accesses limit (.callable base)
    else if (← atSymbol "++") || (← atSymbol "--") then
      let _ ← next
      r.accesses limit (.unary base)
    else return base

def captured (r : Readers) : Parse Unit := do
  if ← tryWord "use" then
    symbol "("
    let variable_ : Parse Unit := do
      let _ ← trySymbol "&"
      let _ ← ofKind .var
    let _ ← commasUntil ")" variable_ r.limit
    return ()
  else return ()

def closure (r : Readers) (start : Nat) : Parse Expr := do
  let _ ← tryWord "static"
  if ← tryWord "function" then
    let _ ← trySymbol "&"
    let parameters ← r.parameters
    r.captured
    let result ← r.result
    let body ← r.body
    return .closure start ⟨parameters, result⟩ body
  else
    word "fn"
    let _ ← trySymbol "&"
    let head ← r.head
    symbol "=>"
    let body ← r.value
    return .arrow start head body

def anonymousClass (r : Readers) (start : Nat) : Parse Expr := do
  let arguments ←
    if ← trySymbol "(" then
      match ← r.arguments with
      | some arguments => pure arguments
      | none => failure
    else pure []
  let heritage ← r.heritage
  let members ← r.members
  return .anonymousClass start arguments heritage members

def createdClass (r : Readers) : Parse Expr := do
  let token ← next
  if token.isSymbol "(" then
    let value ← r.value
    symbol ")"
    return .parenthesized value
  else if token.kind = .var then r.plainAccesses r.limit .atom
  else if token.isSymbol "$" then
    r.dynamicVariable
    r.plainAccesses r.limit .atom
  else if token.kind = .name ∨ token.isWord "static" ∨ token.isPlainWord then
    r.plainAccesses r.limit .atom
  else failure

def created (r : Readers) (start : Nat) : Parse Expr := do
  r.attributes
  let _ ← many (atWord classModifiers) next r.limit
  if ← tryWord "class" then r.anonymousClass start
  else
    let class_ ← r.createdClass
    if ← trySymbol "(" then
      match ← r.arguments with
      | some arguments => return .create class_ arguments
      | none => failure
    else return .create class_ []

def element (r : Readers) : Parse (List Expr) := do
  let _ ← trySymbol "..."
  let first ← r.value
  if ← trySymbol "=>" then
    let value ← r.value
    return [first, value]
  else return [first]

def elements (r : Readers) (close : String) : Nat → Parse (List Expr)
  | 0 => failure
  | limit + 1 => do
    if ← trySymbol close then return []
    else if ← trySymbol "," then r.elements close limit
    else
      let first ← r.element
      if ← trySymbol "," then
        let more ← r.elements close limit
        return first ++ more
      else
        symbol close
        return first

def arm (r : Readers) : Parse Arm := do
  let conditions ←
    if ← tryWord "default" then do
      let _ ← trySymbol ","
      symbol "=>"
      pure []
    else commasUntil "=>" r.value r.limit
  let result ← r.value
  return .arm conditions result

def choice (r : Readers) : Parse Expr := do
  symbol "("
  let subject ← r.value
  symbol ")"
  symbol "\x7b"
  let arms ← commasUntil "\x7d" r.arm r.limit
  return .choice subject arms

def atEnd : Parse Bool := do
  return (← peek).all fun token =>
    token.kind == .closeTag || [";", ")", "]", "\x7d", ",", ":", "=>"].any token.isSymbol

def yielded (r : Readers) : Parse Expr := do
  if ← atEnd then return .yields []
  else if ← tryWord "from" then return .yields [← r.expr 5]
  else
    let first ← r.expr 5
    if ← trySymbol "=>" then return .yields [first, ← r.expr 5] else return .yields [first]

def templateValues (r : Readers) : Nat → Parse (List Expr)
  | 0 => failure
  | limit + 1 => do
    let token ← next
    match token.kind with
    | .templateEnd => return []
    | .templatePart => r.templateValues limit
    | .templateBrace =>
      let value ← r.bracedValue
      let values ← r.templateValues limit
      return value :: values
    | _ => failure

def constructed (r : Readers) : Parse Expr := do
  symbol "("
  return .construct (← commasUntil ")" r.value r.limit)

def wordOperand (r : Readers) (token : Token) : Parse Expr := do
  if token.isWord "static" || token.isPlainWord then r.accesses r.limit .atom
  else if token.isWord "new" then r.accesses r.limit (← r.created token.start)
  else if token.isWord "clone" then return .unary (← r.expr 27)
  else if token.isWord "throw" then return .unary (← r.value)
  else if token.isWord "yield" then r.yielded
  else if token.isWord "match" then r.accesses r.limit (← r.choice)
  else if token.isWord "array" then
    symbol "("
    r.accesses r.limit (.array (← r.elements ")" r.limit))
  else if token.isWord "list" then
    symbol "("
    return .destructure (← r.elements ")" r.limit)
  else if token.isWord "print" then return .construct [← r.expr 4]
  else if token.isOneOf ["include", "include_once", "require", "require_once"] then
    return .construct [← r.value]
  else if token.isOneOf ["isset", "empty", "eval"] then r.constructed
  else if token.isOneOf ["exit", "die"] then
    if ← trySymbol "(" then
      return .construct ((← r.arguments).getD [])
    else return .construct []
  else failure

def atClosure : Parse Bool := do
  let starts (token : Token) : Bool := token.isOneOf ["function", "fn"]
  return (← peek).any starts || ((← atWord ["static"]) && (← peekSecond).any starts)

def operand (r : Readers) : Parse Expr := do
  let start ← offset
  if ← atSymbol "#[" then
    r.attributes
    r.accesses r.limit (← r.closure start)
  else if ← atClosure then r.accesses r.limit (← r.closure start)
  else
    let token ← next
    match prefixStrength token with
    | some strength => return .unary (← r.expr strength)
    | none =>
      match token.kind with
      | .var | .number | .string | .name => r.accesses r.limit .atom
      | .templateStart => r.accesses r.limit (.template (← r.templateValues r.limit))
      | .word => r.wordOperand token
      | _ =>
        if token.isSymbol "(" then
          let inner ← r.value
          symbol ")"
          r.accesses r.limit (.parenthesized inner)
        else if token.isSymbol "[" then
          r.accesses r.limit (.array (← r.elements "]" r.limit))
        else if token.isSymbol "$" then
          r.dynamicVariable
          r.accesses r.limit .atom
        else failure

def operators (r : Readers) (least : Nat) : Nat → Expr → Parse Expr
  | 0, _ => failure
  | limit + 1, left => do
    match (← peek).bind fun token => (operatorStrength token).map (token, ·) with
    | none => return left
    | some (token, strength, toRight) =>
      if strength < least then return left
      else
        let _ ← next
        if token.isSymbol "?" then
          let positive ← Parse.optional (do return !(← atSymbol ":")) r.value
          symbol ":"
          let negative ← r.expr (strength + 1)
          r.operators least limit (.conditional left positive negative)
        else
          let right ← r.expr (if toRight then strength else strength + 1)
          r.operators least limit (.binary left right)

def expression (r : Readers) (least : Nat) : Parse Expr := do
  r.operators least r.limit (← r.operand)

end Readers

end DocSig.Php
