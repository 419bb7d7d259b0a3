import DocSig.Php.Syntax

/-!
The tokens of a PHP source, and what stands between them.
-/

set_option autoImplicit false

namespace DocSig.Php

/-- What a token is. -/
inductive TokenKind where
  /-- Text outside of the code. -/
  | html
  /-- `<?php` -/
  | openTag
  /-- `<?=` -/
  | echoTag
  /-- `?>` -/
  | closeTag
  /-- `$name` -/
  | var
  /-- A name without a backslash, which may be a keyword. -/
  | word
  /-- A name with a backslash in it or before it. -/
  | name
  | number
  /-- A quoted text in which nothing is inserted. -/
  | string
  /-- A type in parentheses before an operand. -/
  | cast
  /-- The start of a text into which values are inserted. -/
  | templateStart
  /-- Plain text of a template, or a variable in it. -/
  | templatePart
  /-- An opening brace before an expression in a template. -/
  | templateBrace
  | templateEnd
  /-- An operator or a piece of punctuation. -/
  | symbol
deriving Repr, BEq, DecidableEq

/-- A token with the byte offset that it starts at. -/
structure Token where
  kind : TokenKind
  text : Text
  start : Nat
deriving Repr, BEq, DecidableEq

namespace Token

def isWord (token : Token) (word : String) : Bool :=
  token.kind == .word && token.text.lower == word.toList

def isOneOf (token : Token) (words : List String) : Bool := words.any token.isWord

def isSymbol (token : Token) (symbol : String) : Bool :=
  token.kind == .symbol && token.text == symbol.toList

end Token

inductive PieceKind where
  | token (kind : TokenKind)
  | trivia (kind : TriviaKind)
deriving Repr, BEq, DecidableEq

end DocSig.Php
