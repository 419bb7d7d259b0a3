import DocSig.Php.Grammar.Expressions

/-!
Readers for statements.
-/

set_option autoImplicit false

namespace DocSig.Php.Readers

open Parse

def condition (r : Readers) : Parse Expr := do
  symbol "("
  let value ← r.value
  symbol ")"
  return value

def statementsUntil (r : Readers) (words : List String) : Parse (List Statement) :=
  many (do return !(← atWord words)) r.statement r.limit

def loopBody (r : Readers) (closing : String) : Parse (List Statement) := do
  if ← trySymbol ":" then
    let body ← r.statementsUntil [closing]
    word closing
    terminator
    return body
  else return [← r.statement]

def elseClauses (r : Readers) : Nat → Parse (List Clause)
  | 0 => failure
  | limit + 1 => do
    if ← tryWord "elseif" then
      let condition ← r.condition
      let statement ← r.statement
      let more ← r.elseClauses limit
      return .clause (some condition) [statement] :: more
    else if ← tryWord "else" then
      let statement ← r.statement
      return [.clause none [statement]]
    else return []

def branchWords : List String := ["elseif", "else", "endif"]

def elseBlocks (r : Readers) : Nat → Parse (List Clause)
  | 0 => failure
  | limit + 1 => do
    if ← tryWord "elseif" then
      let condition ← r.condition
      symbol ":"
      let body ← r.statementsUntil branchWords
      let more ← r.elseBlocks limit
      return .clause (some condition) body :: more
    else if ← tryWord "else" then
      symbol ":"
      let body ← r.statementsUntil ["endif"]
      return [.clause none body]
    else return []

def branches (r : Readers) (start : Nat) : Parse Statement := do
  let condition ← r.condition
  if ← trySymbol ":" then
    let body ← r.statementsUntil branchWords
    let clauses ← r.elseBlocks r.limit
    word "endif"
    terminator
    return .branches start condition body clauses
  else
    let statement ← r.statement
    let clauses ← r.elseClauses r.limit
    return .branches start condition [statement] clauses

def case_ (r : Readers) : Parse Clause := do
  let test ←
    if ← tryWord "case" then pure (some (← r.value))
    else do
      word "default"
      pure none
  let token ← next
  if token.isSymbol ":" || token.isSymbol ";" then
    let atNext := do
      return (← atWord ["case", "default", "endswitch"]) || (← atSymbol "\x7d")
    let body ← many (do return !(← atNext)) r.statement r.limit
    return .clause test body
  else failure

def beforeCases : Parse Unit := do
  if ← trySymbol ";" then return ()
  else if ← atKind .closeTag then
    let _ ← next
    let _ ← Parse.optional (atKind .html) next
    let _ ← ofKind .openTag
    return ()
  else return ()

def switch (r : Readers) (start : Nat) : Parse Statement := do
  let subject ← r.condition
  if ← trySymbol ":" then
    beforeCases
    let cases ← many (do return !(← atWord ["endswitch"])) r.case_ r.limit
    word "endswitch"
    terminator
    return .switch start subject cases
  else
    symbol "\x7b"
    beforeCases
    let cases ← manyUntil "\x7d" r.case_ r.limit
    return .switch start subject cases

def handler (r : Readers) : Parse Clause := do
  symbol "("
  let _ ← className
  let _ ← many (trySymbol "|") className r.limit
  let _ ← Parse.optional (atKind .var) next
  symbol ")"
  return .clause none (← r.body)

def guarded (r : Readers) (start : Nat) : Parse Statement := do
  let body ← r.body
  let handlers ← many (tryWord "catch") r.handler r.limit
  if ← tryWord "finally" then
    let last ← r.body
    return .guarded start body (handlers ++ [.clause none last])
  else return .guarded start body handlers

def forEach (r : Readers) (start : Nat) : Parse Statement := do
  symbol "("
  let subject ← r.value
  word "as"
  let _ ← r.value
  if ← trySymbol "=>" then
    let _ ← r.value
  symbol ")"
  return .forEach start subject (← r.loopBody "endforeach")

def forLoop (r : Readers) (start : Nat) : Parse Statement := do
  symbol "("
  let first ← commasUntil ";" r.value r.limit
  let second ← commasUntil ";" r.value r.limit
  let third ← commasUntil ")" r.value r.limit
  return .forLoop start (first ++ second ++ third) (← r.loopBody "endfor")

def doLoop (r : Readers) (start : Nat) : Parse Statement := do
  let statement ← r.statement
  word "while"
  let condition ← r.condition
  terminator
  return .doLoop start [statement] condition

def directive (r : Readers) (start : Nat) : Parse Statement := do
  symbol "("
  let setting : Parse Unit := do
    let _ ← ofKind .word
    symbol "="
    let _ ← r.value
  let _ ← commasUntil ")" setting r.limit
  return .directive start (← r.loopBody "enddeclare")

def spaceName : Parse (Option Text) := do
  let named := (← peek).any fun token => token.kind == .name || token.kind == .word
  if named then return some (← next).text else return none

/-- The rest of a namespace: what its braces hold, or all up to the next namespace. -/
def space (r : Readers) (start : Nat) : Parse Statement := do
  let name ← spaceName
  if ← trySymbol "\x7b" then return .space start name (← r.statements)
  else if name.isNone then failure
  else
    terminator
    let more := do return (← peek).isSome && !(← atWord ["namespace"])
    return .space start name (← many more r.statement r.limit)

def useItem : Parse UseItem := do
  let name ← className
  if ← tryWord "as" then return ⟨name.text, some (← plainWord).text⟩ else return ⟨name.text, none⟩

def useKind : Parse (Option UseKind) := do
  if ← tryWord "function" then return some .function
  else if ← tryWord "const" then return some .constant
  else return none

def groupItem : Parse (Option UseKind × UseItem) := do
  let kind ← useKind
  return (kind, ← useItem)

def typedItems (r : Readers) (kind : UseKind) : Parse UseItems := do
  let first ← useItem
  if ← trySymbol "\\" then
    symbol "\x7b"
    return .typedGroup kind first.name (← commasUntil "\x7d" useItem r.limit)
  else
    let others ← many (trySymbol ",") useItem r.limit
    return .typedSequence kind (first :: others)

def plainItems (r : Readers) : Parse UseItems := do
  let first ← useItem
  if ← trySymbol "\\" then
    symbol "\x7b"
    return .mixedGroup first.name (← commasUntil "\x7d" groupItem r.limit)
  else
    let others ← many (trySymbol ",") useItem r.limit
    return .sequence (first :: others)

def uses (r : Readers) (start : Nat) : Parse Statement := do
  let items ←
    match ← useKind with
    | some kind => r.typedItems kind
    | none => r.plainItems
  terminator
  return .uses start items

def function (r : Readers) (start : Nat) : Parse Statement := do
  let _ ← trySymbol "&"
  let name ← plainWord
  let head ← r.head
  let body ← r.body
  return .function start name.text head body

def declaredConstants (r : Readers) : Parse Statement := do
  let constant : Parse Unit := do
    let _ ← ofKind .word
    symbol "="
    let _ ← r.value
  let _ ← commas constant r.limit
  terminator
  return .inert

/-- A token some places behind the next one. -/
def ahead (places : Nat) : Parse (Option Token) := do return (← get)[places]?

def atFunction : Parse Bool := do
  if ← atWord ["function"] then
    let second ← peekSecond
    let third ← ahead 2
    return second.any (·.isPlainWord) ||
      (second.any (·.isSymbol "&") && third.any (·.isPlainWord))
  else return false

def atClass : Parse Bool := do
  if ← atWord ["class"] then return true
  else
    return (← atWord classModifiers) && (← peekSecond).any (·.isOneOf ("class" :: classModifiers))

def atEnum : Parse Bool := do
  return (← atWord ["enum"]) &&
    (← peekSecond).any fun token => token.kind == .word && !token.isOneOf ["extends", "implements"]

def declaration? (r : Readers) (start : Nat) : Parse (Option Statement) := do
  if ← atFunction then
    let _ ← next
    return some (← r.function start)
  else if ← atClass then
    let _ ← many (atWord classModifiers) next r.limit
    word "class"
    return some (← r.classLike start .class_)
  else if ← atEnum then
    let _ ← next
    return some (← r.classLike start .enum)
  else if ← tryWord "interface" then return some (← r.classLike start .interface)
  else if ← tryWord "trait" then return some (← r.classLike start .trait)
  else if ← tryWord "const" then return some (← r.declaredConstants)
  else return none

def expressionStatement (r : Readers) : Parse Statement := do
  let value ← r.value
  terminator
  return .expression value

def attributed (r : Readers) (start : Nat) : Parse Statement := do
  match ← r.declaration? start with
  | some statement => return statement
  | none =>
    let value ← r.operators 0 r.limit (← r.accesses r.limit (← r.closure start))
    terminator
    return .expression value

def listed (r : Readers) : Parse Statement := do
  let _ ← commas r.value r.limit
  terminator
  return .inert

def optionalValue (r : Readers) : Parse (Option Expr) := do
  let ends := (← peek).any fun token => token.isSymbol ";" || token.kind == .closeTag
  let value ← Parse.optional (pure !ends) r.value
  terminator
  return value

def globalName (r : Readers) : Parse Unit := do
  if ← trySymbol "$" then r.dynamicVariable
  else
    let _ ← ofKind .var
    return ()

def wordStatement? (r : Readers) (token : Token) : Parse (Option Statement) := do
  let start := token.start
  let leads (words : List String) (read : Parse Statement) (others : Parse (Option Statement)) :
      Parse (Option Statement) := do
    if token.isOneOf words then
      let _ ← next
      return some (← read)
    else others
  leads ["if"] (r.branches start) <|
  leads ["return"] (do return .returns (← r.optionalValue)) <|
  leads ["echo"] (do
    let values ← commas r.value r.limit
    terminator
    return .echo values) <|
  leads ["foreach"] (r.forEach start) <|
  leads ["for"] (r.forLoop start) <|
  leads ["while"] (do
    let condition ← r.condition
    return .whileLoop start condition (← r.loopBody "endwhile")) <|
  leads ["do"] (r.doLoop start) <|
  leads ["switch"] (r.switch start) <|
  leads ["try"] (r.guarded start) <|
  leads ["declare"] (r.directive start) <|
  leads ["namespace"] (r.space start) <|
  leads ["use"] (r.uses start) <|
  leads ["global"] (do
    let _ ← commas r.globalName r.limit
    terminator
    return .inert) <|
  leads ["unset"] (do
    symbol "("
    let _ ← commasUntil ")" r.value r.limit
    terminator
    return .inert) <|
  leads ["break", "continue"] (do
    let _ ← r.optionalValue
    return .inert) <|
  leads ["goto"] (do
    let _ ← plainWord
    terminator
    return .inert) <|
  leads ["__halt_compiler"] (do
    symbol "("
    symbol ")"
    terminator
    return .inert) <|
  return none

def staticVariables? (r : Readers) : Parse (Option Statement) := do
  if (← atWord ["static"]) && (← peekSecond).any (·.kind == .var) then
    let _ ← next
    let _ ← commas (r.assigned .var) r.limit
    terminator
    return some .inert
  else return none

def label? : Parse (Option Statement) := do
  if (← peek).any (·.isPlainWord) && (← peekSecond).any (·.isSymbol ":") then
    let _ ← next
    let _ ← next
    return some .inert
  else return none

def startingWithWord (r : Readers) (token : Token) : Parse Statement := do
  match ← r.wordStatement? token with
  | some statement => return statement
  | none =>
    match ← r.declaration? token.start with
    | some statement => return statement
    | none =>
      match ← r.staticVariables? with
      | some statement => return statement
      | none =>
        match ← label? with
        | some statement => return statement
        | none => r.expressionStatement

def anyStatement (r : Readers) : Parse Statement := do
  match ← peek with
  | none => failure
  | some token =>
    match token.kind with
    | .html | .openTag | .closeTag =>
      let _ ← next
      return .inert
    | .echoTag =>
      let _ ← next
      r.listed
    | .word => r.startingWithWord token
    | _ =>
      if ← trySymbol ";" then return .inert
      else if ← trySymbol "\x7b" then return .block token.start (← r.statements)
      else if ← atSymbol "#[" then
        r.attributes
        r.attributed token.start
      else r.expressionStatement

end DocSig.Php.Readers
