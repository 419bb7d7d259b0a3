import DocSig.Php.Token

/-!
Cutting a PHP source into pieces.

The lexer is a machine with a stack of modes: text outside of the code, code, a quoted text into
which values are inserted, and code within such a text. `cut` takes one piece off the front of a
text; `pieces` goes on to the end. The pieces of a source, put together again, are the source.
-/

set_option autoImplicit false

namespace DocSig.Php

def isWordStart (c : Char) : Bool := c.isAlpha || c == '_' || !isAscii c

def isWordChar (c : Char) : Bool := c.isAlphanum || c == '_' || !isAscii c

inductive Closing where
  | quote (c : Char)
  | label (text : Text)
deriving Repr, BEq, DecidableEq

/-- What the machine is reading. -/
inductive Mode where
  | html
  | code
  /-- Code within a template, with the number of braces open in it. -/
  | embedded (braces : Nat)
  | template (closing : Closing)
  /-- Code behind `__halt_compiler`, up to the given number of symbols. -/
  | halting (symbols : Nat)
deriving Repr, BEq, DecidableEq

/-- One piece, what is left of the text, and the modes to go on in. -/
structure Cut where
  kind : PieceKind
  text : Text
  rest : Text
  modes : List Mode
deriving Repr, BEq, DecidableEq

namespace Lexer

/-- The kind of open tag at the start of a text, and the tag's length. -/
def openTag? (s : Text) : Option (TokenKind × Nat) :=
  if Text.lower (s.take 5) = "<?php".toList then some (.openTag, 5)
  else if "<?=".toList.isPrefixOf s then some (.echoTag, 3)
  else none

def untilTag : Text → Text × Text
  | [] => ([], [])
  | c :: s =>
    if (openTag? (c :: s)).isSome then ([], c :: s)
    else
      let (before, rest) := untilTag s
      (c :: before, rest)

def cutHtml (s : Text) (below : List Mode) : Cut :=
  match openTag? s with
  | some (kind, length) => ⟨.token kind, s.take length, s.drop length, .code :: below⟩
  | none =>
    let (before, rest) := untilTag s
    ⟨.token .html, before, rest, .html :: below⟩

def lineComment : Text → Text × Text
  | [] => ([], [])
  | '?' :: '>' :: s => ([], '?' :: '>' :: s)
  | c :: s =>
    if c = '\n' ∨ c = '\r' then ([], c :: s)
    else
      let (comment, rest) := lineComment s
      (c :: comment, rest)

def blockComment : Text → Option (Text × Text)
  | [] => none
  | '*' :: '/' :: s => some (['*', '/'], s)
  | c :: s => (blockComment s).map fun (comment, rest) => (c :: comment, rest)

/-- A comment documents what follows it if it starts with two asterisks that do not both belong
to its delimiters. -/
def commentKind : Text → TriviaKind
  | '*' :: '/' :: _ => .blockComment
  | '*' :: _ => .docComment
  | _ => .blockComment

def nameRest : Text → Text × Text
  | '\\' :: c :: s =>
    if isWordStart c then
      let (more, rest) := nameRest s
      ('\\' :: c :: more, rest)
    else ([], '\\' :: c :: s)
  | c :: s =>
    if isWordChar c then
      let (more, rest) := nameRest s
      (c :: more, rest)
    else ([], c :: s)
  | [] => ([], [])

/-- A number's digits in a base with a prefix such as `0x`. -/
def isRadixMark (c : Char) : Bool := "xXbBoO".toList.contains c

def exponent (s : Text) : Text × Text :=
  let digits (mark s : Text) : Text × Text :=
    if s.head?.any Char.isDigit then
      (mark ++ s.takeWhile (fun c => c.isDigit || c == '_'),
        s.dropWhile (fun c => c.isDigit || c == '_'))
    else ([], mark ++ s)
  match s with
  | e :: sign :: rest =>
    if e = 'e' ∨ e = 'E' then
      if sign = '+' ∨ sign = '-' then digits [e, sign] rest else digits [e] (sign :: rest)
    else ([], s)
  | _ => ([], s)

/-- The number at the start of a text that begins with a digit, or with a point and a digit. -/
def number (s : Text) : Text × Text :=
  let isDigitOrBar := fun (c : Char) => c.isDigit || c == '_'
  match s with
  | '0' :: mark :: rest =>
    if isRadixMark mark then
      ('0' :: mark :: rest.takeWhile isWordChar, rest.dropWhile isWordChar)
    else decimal isDigitOrBar s
  | _ => decimal isDigitOrBar s
where
  /-- A decimal number with its fraction and exponent. -/
  decimal (isDigitOrBar : Char → Bool) (s : Text) : Text × Text :=
    let whole := s.takeWhile isDigitOrBar
    let rest := s.dropWhile isDigitOrBar
    let (fraction, rest) :=
      match rest with
      | '.' :: '.' :: more => (([] : Text), '.' :: '.' :: more)
      | '.' :: '=' :: more => ([], '.' :: '=' :: more)
      | '.' :: more => ('.' :: more.takeWhile isDigitOrBar, more.dropWhile isDigitOrBar)
      | rest => ([], rest)
    let (power, rest) := exponent rest
    (whole ++ fraction ++ power, rest)

def castTypes : List Text :=
  ["int", "integer", "bool", "boolean", "float", "double", "real", "string", "binary", "array",
   "object", "unset", "void"].map String.toList

/-- The cast at the start of a text behind an opening parenthesis. -/
def cast? (s : Text) : Option (Text × Text) :=
  let before := s.takeWhile isSpaceOrTab
  let s := s.dropWhile isSpaceOrTab
  let word := s.takeWhile isWordChar
  let s := s.dropWhile isWordChar
  let behind := s.takeWhile isSpaceOrTab
  match s.dropWhile isSpaceOrTab with
  | ')' :: rest =>
    if castTypes.contains (Text.lower word) then some (before ++ word ++ behind ++ [')'], rest)
    else none
  | _ => none

/-- Operators and punctuation, longer ones before those that they begin with. -/
def symbols : List Text :=
  ["===", "!==", "<=>", "**=", "...", "<<=", ">>=", "??=", "?->",
   "==", "!=", "<>", "<=", ">=", "&&", "||", "??", "++", "--", "+=", "-=", "*=", "/=", ".=",
   "%=", "&=", "|=", "^=", "<<", ">>", "**", "->", "=>", "::", "|>", "#[",
   "+", "-", "*", "/", "%", "=", "<", ">", "!", ".", ",", ";", ":", "?", "(", ")", "[", "]",
   "\x7b", "\x7d", "&", "|", "^", "~", "@", "$", "\\"].map String.toList

def symbol? (s : Text) : Option Text := symbols.find? fun symbol => symbol.isPrefixOf s

/-- Whether values are inserted into a text between double quotes. -/
def hasInsertion : Text → Bool
  | [] => false
  | '\\' :: _ :: s => hasInsertion s
  | '\x7b' :: '$' :: _ => true
  | '$' :: c :: s => isWordStart c || c == '\x7b' || hasInsertion (c :: s)
  | _ :: s => hasInsertion s

/-- The label that closes a text at the start of a line, behind spaces and tabs. -/
def closingLabel (label s : Text) : Option (Text × Text) :=
  match Text.after? label (s.dropWhile isSpaceOrTab) with
  | some rest =>
    if rest.head?.any isWordChar then none else some (s.takeWhile isSpaceOrTab ++ label, rest)
  | none => none

def closingLine (label : Text) : Text → Option (Text × Text)
  | '\r' :: '\n' :: s => (closingLabel label s).map fun (t, rest) => ('\r' :: '\n' :: t, rest)
  | c :: s =>
    if c = '\n' ∨ c = '\r' then (closingLabel label s).map fun (t, rest) => (c :: t, rest)
    else none
  | [] => none

def closing? : Closing → Text → Option (Text × Text)
  | .quote q, c :: s => if c = q then some ([c], s) else none
  | .quote _, [] => none
  | .label label, s => closingLine label s

def startsInsertion : Text → Bool
  | '\x7b' :: '$' :: _ => true
  | '$' :: c :: _ => isWordStart c || c == '\x7b'
  | _ => false

/-- The plain text of a template up to its end or the next inserted value. -/
def plainText (closing : Closing) : Text → Text × Text
  | [] => ([], [])
  | '\\' :: c :: s =>
    if c = '\n' ∨ c = '\r' then
      let (more, rest) := plainText closing (c :: s)
      ('\\' :: more, rest)
    else
      let (more, rest) := plainText closing s
      ('\\' :: c :: more, rest)
  | c :: s =>
    if (closing? closing (c :: s)).isSome || startsInsertion (c :: s) then ([], c :: s)
    else
      let (more, rest) := plainText closing s
      (c :: more, rest)

def insertedAccess (s : Text) : Text × Text :=
  match s with
  | '[' :: inside =>
    let key := inside.takeWhile fun c => isWordChar c || c == '$' || c == '-'
    match inside.dropWhile fun c => isWordChar c || c == '$' || c == '-' with
    | ']' :: rest => if key.isEmpty then ([], s) else ('[' :: key ++ [']'], rest)
    | _ => ([], s)
  | '-' :: '>' :: c :: rest =>
    if isWordStart c then
      ('-' :: '>' :: c :: rest.takeWhile isWordChar, rest.dropWhile isWordChar)
    else ([], s)
  | '?' :: '-' :: '>' :: c :: rest =>
    if isWordStart c then
      ('?' :: '-' :: '>' :: c :: rest.takeWhile isWordChar, rest.dropWhile isWordChar)
    else ([], s)
  | _ => ([], s)

/-- The mark that opens a text with a label: whether values are inserted into the text, the
label, the mark itself, and the rest from the end of its line on. -/
def labelMark? (s : Text) : Option (Bool × Text × Text × Text) :=
  match Text.after? "<<<".toList s with
  | none => none
  | some s =>
    let blank := s.takeWhile isSpaceOrTab
    let s := s.dropWhile isSpaceOrTab
    let quote := s.takeWhile fun c => c == '\'' || c == '"'
    let s := s.dropWhile fun c => c == '\'' || c == '"'
    let label := s.takeWhile isWordChar
    let s := s.dropWhile isWordChar
    if quote.length ≤ 1 && label.head?.any isWordStart then
      match Text.after? quote s with
      | some rest =>
        if rest.head?.any fun c => c == '\n' || c == '\r' then
          some (quote != ['\''], label, "<<<".toList ++ blank ++ quote ++ label ++ quote, rest)
        else none
      | none => none
    else none

/-- The body of a text with a label into which nothing is inserted, with its closing label. -/
def plainBody (label : Text) : Text → Option (Text × Text)
  | [] => none
  | c :: s =>
    match closingLine label (c :: s) with
    | some found => some found
    | none => (plainBody label s).map fun (body, rest) => (c :: body, rest)

def cutTemplate (closing : Closing) (s : Text) (below : List Mode) : Option Cut :=
  let here := Mode.template closing :: below
  match closing? closing s with
  | some (text, rest) => some ⟨.token .templateEnd, text, rest, below⟩
  | none =>
    match s with
    | '\x7b' :: '$' :: rest =>
      some ⟨.token .templateBrace, ['\x7b'], '$' :: rest, .embedded 0 :: here⟩
    | '$' :: '\x7b' :: rest =>
      some ⟨.token .templateBrace, ['$', '\x7b'], rest, .embedded 0 :: here⟩
    | '$' :: c :: rest =>
      if isWordStart c then
        let word := rest.takeWhile isWordChar
        let (access, rest) := insertedAccess (rest.dropWhile isWordChar)
        some ⟨.token .templatePart, '$' :: c :: word ++ access, rest, here⟩
      else
        let (more, rest) := plainText closing (c :: rest)
        some ⟨.token .templatePart, '$' :: more, rest, here⟩
    | _ =>
      let (text, rest) := plainText closing s
      if text.isEmpty then none else some ⟨.token .templatePart, text, rest, here⟩

def modesBehind (symbol : Text) (mode : Mode) (below : List Mode) : List Mode :=
  match mode with
  | .embedded braces =>
    if symbol = ['\x7b'] then .embedded (braces + 1) :: below
    else if symbol = ['\x7d'] then
      match braces with
      | 0 => below
      | braces + 1 => .embedded braces :: below
    else mode :: below
  | .halting (symbols + 1) => .halting symbols :: below
  | mode => mode :: below

def cutQuoted (quote : Char) (mark s : Text) (here : List Mode) : Option Cut :=
  match Text.readQuoted quote s with
  | none => none
  | some (body, rest) =>
    if quote ≠ '\'' && (quote == '\x60' || hasInsertion body) then
      some ⟨.token .templateStart, mark, s, .template (.quote quote) :: here⟩
    else some ⟨.token .string, mark ++ body, rest, here⟩

def cutWord (s : Text) (mode : Mode) (below : List Mode) : Cut :=
  match s with
  | [] => ⟨.token .word, [], [], mode :: below⟩
  | c :: s =>
    let (more, rest) := nameRest s
    let text := c :: more
    if text.contains '\\' then ⟨.token .name, text, rest, mode :: below⟩
    else
      let modes :=
        if mode = .code ∧ Text.lower text = "__halt_compiler".toList then .halting 3 :: below
        else mode :: below
      ⟨.token .word, text, rest, modes⟩

def cutSymbol (s : Text) (mode : Mode) (below : List Mode) : Option Cut :=
  let plain :=
    (symbol? s).map fun symbol =>
      Cut.mk (.token .symbol) symbol (s.drop symbol.length) (modesBehind symbol mode below)
  match s with
  | '(' :: inside =>
    match mode, cast? inside with
    | .halting _, _ | _, none => plain
    | _, some (text, rest) => some ⟨.token .cast, '(' :: text, rest, mode :: below⟩
  | _ => plain

def cutCode (s : Text) (mode : Mode) (below : List Mode) : Option Cut :=
  let here := mode :: below
  match s with
  | [] => none
  | '#' :: '[' :: _ => cutSymbol s mode below
  | '#' :: rest =>
    let (comment, rest) := lineComment rest
    some ⟨.trivia .lineComment, '#' :: comment, rest, here⟩
  | '/' :: '/' :: rest =>
    let (comment, rest) := lineComment rest
    some ⟨.trivia .lineComment, '/' :: '/' :: comment, rest, here⟩
  | '/' :: '*' :: rest =>
    (blockComment rest).map fun (comment, after) =>
      ⟨.trivia (commentKind rest), '/' :: '*' :: comment, after, here⟩
  | '?' :: '>' :: rest =>
    match mode with
    | .embedded _ => none
    | .halting _ => some ⟨.token .closeTag, ['?', '>'], rest, .halting 0 :: below⟩
    | _ => some ⟨.token .closeTag, ['?', '>'], rest, .html :: below⟩
  | '\\' :: c :: _ => if isWordStart c then some (cutWord s mode below) else cutSymbol s mode below
  | '$' :: c :: rest =>
    if isWordStart c then
      some ⟨.token .var, '$' :: c :: rest.takeWhile isWordChar, rest.dropWhile isWordChar, here⟩
    else cutSymbol s mode below
  | '<' :: '<' :: '<' :: _ =>
    match labelMark? s with
    | some (true, label, mark, rest) =>
      some ⟨.token .templateStart, mark, rest, .template (.label label) :: here⟩
    | some (false, label, mark, rest) =>
      (plainBody label rest).map fun (body, rest) => ⟨.token .string, mark ++ body, rest, here⟩
    | none => cutSymbol s mode below
  | '.' :: c :: _ =>
    if c.isDigit then
      let (text, rest) := number s
      some ⟨.token .number, text, rest, here⟩
    else cutSymbol s mode below
  | c :: rest =>
    if isAsciiBlank c then
      some ⟨.trivia .blank, c :: rest.takeWhile isAsciiBlank, rest.dropWhile isAsciiBlank, here⟩
    else if c = '\'' ∨ c = '"' ∨ c = '\x60' then cutQuoted c [c] rest here
    else if c.isDigit then
      let (text, rest) := number s
      some ⟨.token .number, text, rest, here⟩
    else if isWordStart c then
      match rest with
      | q :: after =>
        if (c = 'b' ∨ c = 'B') ∧ (q = '\'' ∨ q = '"') then cutQuoted q [c, q] after here
        else some (cutWord s mode below)
      | [] => some (cutWord s mode below)
    else cutSymbol s mode below

/-- Cuts one piece off a text that is not empty. -/
def cut (modes : List Mode) (s : Text) : Option Cut :=
  match modes with
  | [] => none
  | .html :: below => some (cutHtml s below)
  | .template closing :: below => cutTemplate closing s below
  | .halting 0 :: below => some ⟨.token .html, s, [], .halting 0 :: below⟩
  | mode :: below => cutCode s mode below

/-- The modes in which a source may end: outside of any template. -/
def mayEnd : List Mode → Bool
  | [.html] | [.code] | [.halting _] => true
  | _ => false

/-- The pieces of a text that starts at the byte offset `start`; no piece is empty, so the
allowance need not be larger than the text is long. -/
def pieces : Nat → List Mode → Nat → Text → Option (List (PieceKind × Text × Nat))
  | _, modes, _, [] => if mayEnd modes then some [] else none
  | 0, _, _, _ :: _ => none
  | allowance + 1, modes, start, s =>
    match cut modes s with
    | none => none
    | some ⟨kind, text, rest, modes⟩ =>
      (pieces allowance modes (start + text.byteSize) rest).map ((kind, text, start) :: ·)

end Lexer

/-- A source cut up: its tokens and what stands between them, both in order. -/
structure Lexemes where
  tokens : List Token
  trivia : List Trivia
deriving Repr, BEq, DecidableEq

def tokenOf? : PieceKind × Text × Nat → Option Token
  | (.token kind, text, start) => some ⟨kind, text, start⟩
  | (.trivia _, _, _) => none

def triviaOf? : PieceKind × Text × Nat → Option Trivia
  | (.trivia kind, text, start) => some ⟨kind, text, start⟩
  | (.token _, _, _) => none

/-- Cuts up a source; nothing if a comment or a quoted text has no end, or a character has no
place in code. -/
def Lexemes.ofSource (source : Text) : Option Lexemes :=
  (Lexer.pieces source.length [.html] 0 source).map fun pieces =>
    ⟨pieces.filterMap tokenOf?, pieces.filterMap triviaOf?⟩

end DocSig.Php
