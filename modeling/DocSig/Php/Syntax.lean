import DocSig.Outline.Basic
import DocSig.Text.LineIndex

/-!
What a parser makes of a PHP source: its syntax, as far as declarations can stand in it, and what
stands between its tokens.

Attributes, default values, constants and property values are not kept. Every construct that an
outline shows keeps the byte offset that it starts at. Nothing is taken for granted of a parser
(`Parser`) but that it answers one source always in one way.
-/

set_option autoImplicit false

namespace DocSig.Php

structure Word where
  text : Text
  start : Nat
deriving Repr, BEq, DecidableEq

/-- The type of a parameter or a result. -/
inductive Hint where
  /-- A class name. -/
  | named (word : Word)
  /-- A built-in type. -/
  | builtin
  /-- `self`, `static` or `parent`. -/
  | relative (word : Word)
  | nullable (inner : Hint)
  | union (left right : Hint)
  | intersection (left right : Hint)
  | grouped (inner : Hint)
deriving Repr, BEq, DecidableEq

/-- The types that the head of a function names. -/
structure Head where
  parameters : List (Option Hint)
  result : Option Hint
deriving Repr, BEq, DecidableEq

structure Heritage where
  extended : List Word
  implemented : List Word
deriving Repr, BEq, DecidableEq

/-- What a `use` statement imports where it says that it is no class. -/
inductive UseKind where
  | function
  | constant
deriving Repr, BEq, DecidableEq

structure UseItem where
  name : Text
  short : Option Text
deriving Repr, BEq, DecidableEq

inductive UseItems where
  | sequence (items : List UseItem)
  | typedSequence (kind : UseKind) (items : List UseItem)
  /-- A group of names in braces, behind what they have in common. -/
  | typedGroup (kind : UseKind) (lead : Text) (items : List UseItem)
  /-- A group in which each name may have a kind of its own. -/
  | mixedGroup (lead : Text) (items : List (Option UseKind × UseItem))
deriving Repr, BEq, DecidableEq

inductive DeclarationKind where
  | class_
  | interface
  | trait
  | enum
deriving Repr, BEq, DecidableEq

def DeclarationKind.toClassKind : DeclarationKind → ClassKind
  | .class_ => .plain
  | .interface => .interface
  | .trait => .trait
  | .enum => .enum

mutual

/-- An expression. -/
inductive Expr where
  /-- A variable, a constant, a literal or a class name. -/
  | atom
  | parenthesized (inner : Expr)
  /-- An operator before or behind its operand. -/
  | unary (operand : Expr)
  /-- An operator between its operands, assignments included. -/
  | binary (left right : Expr)
  | conditional (condition : Expr) (positive : Option Expr) (negative : Expr)
  | call (callee : Expr) (arguments : List Expr)
  /-- A function that is named, but not called. -/
  | callable (callee : Expr)
  | create (class_ : Expr) (arguments : List Expr)
  /-- The keys and values of an array, in order. -/
  | array (elements : List Expr)
  /-- The targets of `list(…)`. -/
  | destructure (elements : List Expr)
  | index (base : Expr) (key : Option Expr)
  /-- A property, a method or a constant of what stands before it. -/
  | member (object : Expr)
  | choice (subject : Expr) (arms : List Arm)
  | yields (operands : List Expr)
  /-- A built-in construct such as `print`, `isset` or `include`. -/
  | construct (operands : List Expr)
  /-- A text into which values are inserted. -/
  | template (values : List Expr)
  | closure (start : Nat) (head : Head) (body : List Statement)
  | arrow (start : Nat) (head : Head) (body : Expr)
  | anonymousClass (start : Nat) (arguments : List Expr) (heritage : Heritage)
      (members : List Member)

inductive Arm where
  | arm (conditions : List Expr) (result : Expr)

/-- A statement. -/
inductive Statement where
  /-- A statement in which no declaration is looked for. -/
  | inert
  | space (start : Nat) (name : Option Text) (body : List Statement)
  | uses (start : Nat) (items : UseItems)
  | classLike (start : Nat) (kind : DeclarationKind) (name : Text) (heritage : Heritage)
      (members : List Member)
  | function (start : Nat) (name : Text) (head : Head) (body : List Statement)
  | block (start : Nat) (body : List Statement)
  /-- A condition and its branches; each `elseif` has a condition of its own. -/
  | branches (start : Nat) (condition : Expr) (body : List Statement) (clauses : List Clause)
  /-- A `try` block with its handlers. -/
  | guarded (start : Nat) (body : List Statement) (handlers : List Clause)
  | forEach (start : Nat) (subject : Expr) (body : List Statement)
  | whileLoop (start : Nat) (condition : Expr) (body : List Statement)
  | doLoop (start : Nat) (body : List Statement) (condition : Expr)
  | forLoop (start : Nat) (header : List Expr) (body : List Statement)
  | switch (start : Nat) (subject : Expr) (cases : List Clause)
  | directive (start : Nat) (body : List Statement)
  | expression (value : Expr)
  | returns (value : Option Expr)
  | echo (values : List Expr)

/-- A part of a statement with statements of its own, and the expression that leads to them. -/
inductive Clause where
  | clause (test : Option Expr) (body : List Statement)

inductive Member where
  /-- A property, a constant, a case or the use of a trait. -/
  | other
  | method (start : Nat) (isStatic : Bool) (name : Text) (head : Head) (body : List Statement)

end

inductive TriviaKind where
  | blank
  /-- A comment up to the end of its line. -/
  | lineComment
  | blockComment
  /-- A comment that documents what follows it. -/
  | docComment
deriving Repr, BEq, DecidableEq

/-- White space or a comment, with the byte offset that it starts at. -/
structure Trivia where
  kind : TriviaKind
  text : Text
  start : Nat
deriving Repr, BEq, DecidableEq

def Trivia.stop (trivia : Trivia) : Nat := trivia.start + trivia.text.byteSize

/-- What a parser finds in a source, with its words for what it finds wrong. -/
structure Program where
  statements : List Statement
  /-- White space and comments, in the order in which they stand. -/
  trivia : List Trivia
  errors : List Text

/-- A parser of PHP; it may break down and give nothing. -/
abbrev Parser := Text → Option Program

end DocSig.Php
