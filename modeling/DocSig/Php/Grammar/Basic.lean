import DocSig.Php.Syntax
import DocSig.Php.Token

/-!
Readers of tokens: each takes tokens off the front of a list and gives what they mean, or
nothing if they do not fit.
-/

set_option autoImplicit false

namespace DocSig.Php

/-- A reader of tokens. -/
abbrev Parse (α : Type) := StateT (List Token) Option α

namespace Parse

def peek : Parse (Option Token) := do return (← get).head?

def peekSecond : Parse (Option Token) := do return (← get).tail.head?

def next : Parse Token := fun
  | [] => none
  | token :: tokens => some (token, tokens)

def atSymbol (symbol : String) : Parse Bool := do return (← peek).any (·.isSymbol symbol)

def atWord (words : List String) : Parse Bool := do return (← peek).any (·.isOneOf words)

def atKind (kind : TokenKind) : Parse Bool := do return (← peek).any (·.kind == kind)

def trySymbol (symbol : String) : Parse Bool := do
  if ← atSymbol symbol then
    let _ ← next
    return true
  else return false

def tryWord (word : String) : Parse Bool := do
  if ← atWord [word] then
    let _ ← next
    return true
  else return false

def symbol (symbol : String) : Parse Unit := do
  let token ← next
  if token.isSymbol symbol then return () else failure

def word (word : String) : Parse Unit := do
  let token ← next
  if token.isWord word then return () else failure

def ofKind (kind : TokenKind) : Parse Token := do
  let token ← next
  if token.kind = kind then return token else failure

/-- The byte offset of the next token. -/
def offset : Parse Nat := do
  match ← peek with
  | some token => return token.start
  | none => failure

def many {α : Type} (more : Parse Bool) (item : Parse α) : Nat → Parse (List α)
  | 0 => failure
  | limit + 1 => do
    if ← more then
      let x ← item
      let xs ← many more item limit
      return x :: xs
    else return []

def manyUntil {α : Type} (close : String) (item : Parse α) (limit : Nat) : Parse (List α) := do
  let items ← many (do return !(← atSymbol close)) item limit
  symbol close
  return items

def commas {α : Type} (item : Parse α) (limit : Nat) : Parse (List α) := do
  let first ← item
  let others ← many (trySymbol ",") item limit
  return first :: others

/-- Reads items with commas between them up to a closing piece of punctuation, which is taken
too; a comma may stand before it. -/
def commasUntil {α : Type} (close : String) (item : Parse α) : Nat → Parse (List α)
  | 0 => failure
  | limit + 1 => do
    if ← trySymbol close then return []
    else
      let x ← item
      if ← trySymbol "," then
        let xs ← commasUntil close item limit
        return x :: xs
      else
        symbol close
        return [x]

def optional {α : Type} (given : Parse Bool) (item : Parse α) : Parse (Option α) := do
  if ← given then return some (← item) else return none

end Parse

def reservedWords : List String :=
  ["abstract", "and", "array", "as", "break", "callable", "case", "catch", "class", "clone",
   "const", "continue", "declare", "default", "die", "do", "echo", "else", "elseif", "empty",
   "enddeclare", "endfor", "endforeach", "endif", "endswitch", "endwhile", "eval", "exit",
   "extends", "final", "finally", "fn", "for", "foreach", "function", "global", "goto", "if",
   "implements", "include", "include_once", "instanceof", "insteadof", "interface", "isset",
   "list", "match", "namespace", "new", "or", "print", "private", "protected", "public",
   "require", "require_once", "return", "static", "switch", "throw", "trait", "try", "unset",
   "use", "var", "while", "xor", "yield", "__halt_compiler"]

def Token.isPlainWord (token : Token) : Bool :=
  token.kind == .word && !token.isOneOf reservedWords

namespace Parse

def plainWord : Parse Token := do
  let token ← next
  if token.isPlainWord then return token else failure

def className : Parse Word := do
  let token ← next
  if token.kind = .name ∨ token.isPlainWord then return ⟨token.text, token.start⟩ else failure

/-- Reads the end of a statement: a semicolon, or the end of the code. -/
def terminator : Parse Unit := do
  let token ← next
  if token.isSymbol ";" || token.kind == .closeTag then return () else failure

end Parse

def builtinHints : List String :=
  ["null", "true", "false", "array", "callable", "void", "never", "float", "bool", "int",
   "string", "object", "mixed", "iterable"]

def simpleHint (hint : Parse Hint) : Parse Hint := do
  if ← Parse.trySymbol "?" then return .nullable (← hint)
  else if ← Parse.trySymbol "(" then
    let inner ← hint
    Parse.symbol ")"
    return .grouped inner
  else
    let token ← Parse.next
    if token.isOneOf builtinHints then return .builtin
    else if token.isOneOf ["self", "static", "parent"] then
      return .relative ⟨token.text, token.start⟩
    else if token.kind = .name ∨ token.isPlainWord then return .named ⟨token.text, token.start⟩
    else failure

/-- What may follow the type of a parameter that is taken by reference. -/
def startsParameterName (token : Token) : Bool :=
  token.kind == .var || token.isSymbol "..." || token.isSymbol "&"

/-- Whether an `&` joins two types. -/
def atConjunction : Parse Bool := do
  return (← Parse.atSymbol "&") && !(← Parse.peekSecond).any startsParameterName

/-- Reads a type, at most `limit` operators deep. -/
def readHint : Nat → Parse Hint
  | 0 => failure
  | limit + 1 => do
    let left ← simpleHint (readHint limit)
    if ← Parse.trySymbol "|" then return .union left (← readHint limit)
    else if ← atConjunction then
      Parse.symbol "&"
      return .intersection left (← readHint limit)
    else return left

end DocSig.Php
