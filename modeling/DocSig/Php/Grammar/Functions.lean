import DocSig.Php.Grammar.Basic

/-!
Readers for what belongs to functions: arguments, attributes, parameters and bodies.

Each reader takes the readers of expressions and statements as `Readers`; the knot is tied in
`DocSig.Php.Parser`.
-/

set_option autoImplicit false

namespace DocSig.Php

/-- The readers that all constructs are made from. -/
structure Readers where
  /-- An expression of operators that bind at least so strongly. -/
  expr : Nat → Parse Expr
  statement : Parse Statement
  /-- No list of items is longer. -/
  limit : Nat

namespace Readers

open Parse

def value (r : Readers) : Parse Expr := r.expr 0

def statements (r : Readers) : Parse (List Statement) := manyUntil "\x7d" r.statement r.limit

def body (r : Readers) : Parse (List Statement) := do
  symbol "\x7b"
  r.statements

def argument (r : Readers) : Parse Expr := do
  if ← trySymbol "..." then r.value
  else
    let named := (← peek).any (·.kind == .word) && (← peekSecond).any (·.isSymbol ":")
    if named then
      let _ ← next
      let _ ← next
      r.value
    else r.value

/-- The arguments behind an opening parenthesis, or nothing for `...` alone, which calls
nothing. -/
def arguments (r : Readers) : Parse (Option (List Expr)) := do
  if (← atSymbol "...") && (← peekSecond).any (·.isSymbol ")") then
    let _ ← next
    let _ ← next
    return none
  else return some (← commasUntil ")" r.argument r.limit)

def attribute_ (r : Readers) : Parse Unit := do
  let token ← next
  if token.kind = .name ∨ token.kind = .word then
    if ← trySymbol "(" then
      let _ ← r.arguments
      return ()
    else return ()
  else failure

def attributes (r : Readers) : Parse Unit := do
  let _ ← many (trySymbol "#[") (commasUntil "]" r.attribute_ r.limit) r.limit
  return ()

def modifier : Parse Token := do
  let token ← next
  if (← atSymbol "(") && (← peekSecond).any (·.isWord "set") then
    let _ ← next
    let _ ← next
    symbol ")"
    return token
  else return token

def modifierWords : List String :=
  ["public", "protected", "private", "static", "abstract", "final", "readonly", "var"]

def modifiers (r : Readers) : Parse (List Token) := many (atWord modifierWords) modifier r.limit

def hint (r : Readers) : Parse Hint := readHint r.limit

def default_ (r : Readers) : Parse Unit := do
  if ← trySymbol "=" then
    let _ ← r.value
    return ()
  else return ()

def hintBeforeName (r : Readers) : Parse (Option Hint) := do
  if (← peek).any startsParameterName then return none else return some (← r.hint)

def parameterWith (r : Readers) (hooks : Parse Unit) : Parse (Option Hint) := do
  r.attributes
  let _ ← r.modifiers
  let hint ← r.hintBeforeName
  let _ ← trySymbol "&"
  let _ ← trySymbol "..."
  let _ ← ofKind .var
  r.default_
  if ← trySymbol "\x7b" then
    hooks
    return hint
  else return hint

def hook (r : Readers) : Parse Unit := do
  r.attributes
  let _ ← r.modifiers
  let _ ← trySymbol "&"
  let _ ← ofKind .word
  if ← trySymbol "(" then
    let _ ← commasUntil ")" (r.parameterWith failure) r.limit
  if ← trySymbol ";" then return ()
  else if ← trySymbol "=>" then
    let _ ← r.value
    symbol ";"
  else
    let _ ← r.body
    return ()

def hooks (r : Readers) : Parse Unit := do
  let _ ← manyUntil "\x7d" r.hook r.limit
  return ()

def parameter (r : Readers) : Parse (Option Hint) := r.parameterWith r.hooks

def parameters (r : Readers) : Parse (List (Option Hint)) := do
  symbol "("
  commasUntil ")" r.parameter r.limit

def result (r : Readers) : Parse (Option Hint) := Parse.optional (trySymbol ":") r.hint

def head (r : Readers) : Parse Head := do
  let parameters ← r.parameters
  let result ← r.result
  return ⟨parameters, result⟩

end Readers

end DocSig.Php
