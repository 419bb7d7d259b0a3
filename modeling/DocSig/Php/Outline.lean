import DocSig.Fault
import DocSig.Outline.Basic
import DocSig.Php.Syntax

/-!
The outline of a PHP source.

The syntax is walked from left to right, and each node is pushed when the walk comes to it, below
the node of what it stands in. Blocks, closures and loops become block nodes, class names in heads
and heritage become references, and every function or method takes the comment that documents it
(`commentBefore`). Default values, keys in brackets, the conditions of `match` arms and `elseif`,
and the operands of built-in constructs are not entered.
-/

set_option autoImplicit false

namespace DocSig.Php

/-- The bytes of a text from one byte offset up to another. -/
def byteRange (bytes : List UInt8) (start stop : Nat) : List UInt8 :=
  (bytes.drop start).take (stop - start)

/-- White space within ASCII, as a byte. -/
def isBlankByte (b : UInt8) : Bool :=
  b == 0x20 || b == 0x09 || b == 0x0a || b == 0x0c || b == 0x0d

/-- The comment that documents what starts at `covered`, among comments given from the last to
the first: only white space and other comments may stand between. -/
def nearestComment (bytes : List UInt8) (covered : Nat) : List Trivia → Option Text
  | [] => none
  | trivia :: earlier =>
    if (byteRange bytes trivia.stop covered).all isBlankByte then
      match trivia.kind with
      | .docComment => some trivia.text
      | .blank | .lineComment | .blockComment => nearestComment bytes trivia.start earlier
    else none

/-- The comment that documents what starts at a byte offset of a source. -/
def commentBefore (bytes : List UInt8) (trivia : List Trivia) (start : Nat) : Option Text :=
  nearestComment bytes start (trivia.take (countFront (·.start < start) trivia.toArray)).reverse

/-- What the outline needs to know of the source beside its syntax. -/
structure SourceText where
  bytes : List UInt8
  lines : LineIndex
  trivia : List Trivia

namespace SourceText

/-- A source with the white space and comments that were found in it. -/
def ofText (source : Text) (trivia : List Trivia) : SourceText :=
  ⟨source.bytes, LineIndex.ofText source, trivia⟩

/-- The line of a byte offset, which is a word of 32 bits. -/
def lineAt (source : SourceText) (start : Nat) : Nat :=
  (source.lines.lineOf (UInt32.ofNat start)).toNat

def node (source : SourceText) (start : Nat) (kind : NodeKind) : Node :=
  ⟨kind, source.lineAt start, none⟩

def functionNode (source : SourceText) (start : Nat) (kind : FunctionKind) (name : Text) : Node :=
  ⟨.function kind name, source.lineAt start, commentBefore source.bytes source.trivia start⟩

end SourceText

/-- The last part of a name. -/
def shortName (name : Text) : Text := (name.reverse.takeWhile (· != '\\')).reverse

/-- A name without the backslashes that lead it. -/
def withoutLead (name : Text) : Text := name.dropWhile (· == '\\')

/-- The import of a name, which may stand in a group behind what the names have in common. -/
def UseItem.toImport (lead : Option Text) (item : UseItem) : Import :=
  let target :=
    match lead with
    | some lead => withoutLead lead ++ '\\' :: withoutLead item.name
    | none => withoutLead item.name
  ⟨item.short.getD (shortName target), target⟩

/-- The classes that a `use` statement imports; functions and constants are left out. -/
def UseItems.imports : UseItems → List Import
  | .sequence items => items.map (UseItem.toImport none)
  | .typedSequence _ _ | .typedGroup _ _ _ => []
  | .mixedGroup lead items => items.filterMap fun (kind, item) =>
    if kind.isSome then none else some (item.toImport (some lead))

/-- The class that a class extends, which is the first one behind `extends`. -/
def Heritage.parent? (heritage : Heritage) : Option Text := heritage.extended.head?.map Word.text

/-- The class names in the head of a declaration, as far as its kind has any there. -/
def Heritage.words (heritage : Heritage) : ClassKind → List Word
  | .plain | .anonymous => heritage.extended ++ heritage.implemented
  | .interface => heritage.extended
  | .trait => []
  | .enum => heritage.implemented

/-- Steps in which an outline grows. -/
abbrev Growing := StateM Outline

/-- Adds a node as the last child of the node numbered `parent`; gives the number of the new one. -/
def add (parent : Nat) (node : Node) : Growing Nat := fun outline =>
  (outline.size, outline.push parent node)

namespace SourceText

def addReference (source : SourceText) (parent : Nat) (word : Word) : Growing Unit := do
  let _ ← add parent (source.node word.start (.reference word.text))

def addReferences (source : SourceText) (parent : Nat) : List Word → Growing Unit
  | [] => return ()
  | word :: words => do
    source.addReference parent word
    addReferences source parent words

def addHint (source : SourceText) (parent : Nat) : Hint → Growing Unit
  | .named word | .relative word => source.addReference parent word
  | .builtin => return ()
  | .nullable inner | .grouped inner => addHint source parent inner
  | .union left right | .intersection left right => do
    addHint source parent left
    addHint source parent right

def addHints (source : SourceText) (parent : Nat) : List (Option Hint) → Growing Unit
  | [] => return ()
  | none :: hints => addHints source parent hints
  | some hint :: hints => do
    source.addHint parent hint
    addHints source parent hints

/-- Adds the class names of a function's head: those of its parameters, then those of its result. -/
def addHead (source : SourceText) (parent : Nat) (head : Head) : Growing Unit := do
  source.addHints parent head.parameters
  source.addHints parent [head.result]

mutual

def addExpr (source : SourceText) (parent : Nat) : Expr → Growing Unit
  | .atom | .callable _ | .destructure _ | .index _ _ | .construct _ | .template _ => return ()
  | .parenthesized inner | .unary inner | .member inner => addExpr source parent inner
  | .binary left right => do
    addExpr source parent left
    addExpr source parent right
  | .conditional condition positive negative => do
    addExpr source parent condition
    addOption source parent positive
    addExpr source parent negative
  | .call callee arguments => do
    addExpr source parent callee
    addExprs source parent arguments
  | .create class_ arguments => do
    addExpr source parent class_
    addExprs source parent arguments
  | .array elements => addExprs source parent elements
  | .choice subject arms => do
    addExpr source parent subject
    addArms source parent arms
  | .yields operands => addExprs source parent operands
  | .closure start head body => do
    let id ← add parent (source.node start .block)
    source.addHead id head
    addStatements source id body
  | .arrow start head body => do
    let id ← add parent (source.node start .block)
    source.addHead id head
    addExpr source id body
  | .anonymousClass start arguments heritage members => do
    -- the arguments stand outside of the class, before its own node
    addExprs source parent arguments
    let kind := .classLike .anonymous anonymousClassName heritage.parent?
    let id ← add parent (source.node start kind)
    source.addReferences id (heritage.words .anonymous)
    addMembers source id members

def addOption (source : SourceText) (parent : Nat) : Option Expr → Growing Unit
  | none => return ()
  | some expr => addExpr source parent expr

def addExprs (source : SourceText) (parent : Nat) : List Expr → Growing Unit
  | [] => return ()
  | expr :: exprs => do
    addExpr source parent expr
    addExprs source parent exprs

def addArms (source : SourceText) (parent : Nat) : List Arm → Growing Unit
  | [] => return ()
  | .arm _ result :: arms => do
    addExpr source parent result
    addArms source parent arms

def addStatement (source : SourceText) (parent : Nat) : Statement → Growing Unit
  | .inert => return ()
  | .space start name body => do
    let id ← add parent (source.node start (.space (name.filter (!·.isEmpty))))
    addStatements source id body
  | .uses start items =>
    if items.imports.isEmpty then return ()
    else do
      let _ ← add parent (source.node start (.imports items.imports))
  | .classLike start kind name heritage members => do
    let extended := if kind = .class_ then heritage.parent? else none
    let id ← add parent (source.node start (.classLike kind.toClassKind name extended))
    source.addReferences id (heritage.words kind.toClassKind)
    addMembers source id members
  | .function start name head body => do
    let id ← add parent (source.functionNode start .free name)
    source.addHead id head
    addStatements source id body
  | .block start body => do
    let id ← add parent (source.node start .block)
    addStatements source id body
  | .branches start condition body clauses => do
    let id ← add parent (source.node start .block)
    addExpr source id condition
    addStatements source id body
    addBodies source id clauses
  | .guarded start body handlers => do
    let id ← add parent (source.node start .block)
    addStatements source id body
    addBodies source id handlers
  | .forEach start subject body => do
    let id ← add parent (source.node start .block)
    addExpr source id subject
    addStatements source id body
  | .whileLoop start condition body => do
    let id ← add parent (source.node start .block)
    addExpr source id condition
    addStatements source id body
  | .doLoop start body condition => do
    let id ← add parent (source.node start .block)
    addStatements source id body
    addExpr source id condition
  | .forLoop start header body => do
    let id ← add parent (source.node start .block)
    addExprs source id header
    addStatements source id body
  | .switch start subject cases => do
    let id ← add parent (source.node start .block)
    addExpr source id subject
    addCases source id cases
  | .directive start body => do
    let id ← add parent (source.node start .block)
    addStatements source id body
  | .expression value => addExpr source parent value
  | .returns value => addOption source parent value
  | .echo values => addExprs source parent values

def addStatements (source : SourceText) (parent : Nat) : List Statement → Growing Unit
  | [] => return ()
  | statement :: statements => do
    addStatement source parent statement
    addStatements source parent statements

def addBodies (source : SourceText) (parent : Nat) : List Clause → Growing Unit
  | [] => return ()
  | .clause _ body :: clauses => do
    addStatements source parent body
    addBodies source parent clauses

def addCases (source : SourceText) (parent : Nat) : List Clause → Growing Unit
  | [] => return ()
  | .clause test body :: clauses => do
    addOption source parent test
    addStatements source parent body
    addCases source parent clauses

def addMembers (source : SourceText) (parent : Nat) : List Member → Growing Unit
  | [] => return ()
  | .other :: members => addMembers source parent members
  | .method start isStatic name head body :: members => do
    let kind := if isStatic then .staticMethod else .method
    let id ← add parent (source.functionNode start kind name)
    source.addHead id head
    addStatements source id body
    addMembers source parent members

end

def outline (source : SourceText) (statements : List Statement) : Outline :=
  ((source.addStatements 0 statements).run .empty).2

end SourceText

/-- The outline of a source by some parser. The first error that the parser tells is the fault of
the source, and so is its breakdown. -/
def outlineOf (parser : Parser) (source : Text) : Except Fault Outline :=
  match parser source with
  | none => .error (.noProgram "parser panicked".toList)
  | some program =>
    match program.errors with
    | message :: _ => .error (.noProgram message)
    | [] => .ok ((SourceText.ofText source program.trivia).outline program.statements)

end DocSig.Php
