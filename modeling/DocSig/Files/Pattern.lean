import DocSig.Files.Path
import DocSig.Text.LineIndex

/-!
Patterns that the routes of files are compared with.

`?` stands for one byte and `*` for any run of them within one name; `**` as a whole name stands
for any folders; brackets hold a set and braces hold alternatives. A pattern is matched against the
bytes of a route whose names are joined by `/`: `Token.rests` gives what may be left of the bytes
behind a token, and a pattern fits if nothing may be left behind its last one.
-/

set_option autoImplicit false

namespace DocSig.Files

open DocSig.Path (slash)

/-- A part of a pattern. -/
inductive Token where
  /-- Just these bytes. -/
  | literal (bytes : Bytes)
  /-- One byte of a name. -/
  | anyByte
  /-- Any bytes of a name. -/
  | anyRun
  /-- Folders at the start, or none. -/
  | leadingFolders
  /-- All that a folder holds. -/
  | contents
  /-- Folders between two names, or none. -/
  | innerFolders
  /-- A byte of a set, which is given by its ranges, or of all others. -/
  | oneOf (negated : Bool) (ranges : List (UInt8 × UInt8))
  /-- One of some patterns. -/
  | choice (patterns : List (List Token))

def ends : Bytes → List Bytes
  | [] => [[]]
  | b :: s => (b :: s) :: ends s

/-- The ends of some bytes that lie within the first name. -/
def endsInName : Bytes → List Bytes
  | [] => [[]]
  | b :: s => if b = slash then [b :: s] else (b :: s) :: endsInName s

def endsBehindSlash : Bytes → List Bytes
  | [] => []
  | b :: s => if b = slash then s :: endsBehindSlash s else endsBehindSlash s

def afterBytes? : Bytes → Bytes → Option Bytes
  | [], s => some s
  | _ :: _, [] => none
  | a :: start, b :: s => if a = b then afterBytes? start s else none

/-- Whether a byte lies within one of some ranges. -/
def inRanges (ranges : List (UInt8 × UInt8)) (b : UInt8) : Bool :=
  ranges.any fun (low, high) => low ≤ b && b ≤ high

def behindSlash : Bytes → List Bytes
  | b :: s => if b = slash then [s] else []
  | [] => []

mutual

def Token.rests : Token → Bytes → List Bytes
  | .literal bytes, s => (afterBytes? bytes s).toList
  | .anyByte, [] => []
  | .anyByte, b :: s => if b = slash then [] else [s]
  | .anyRun, s => endsInName s
  | .leadingFolders, s => s :: endsBehindSlash s
  | .contents, s => (behindSlash s).flatMap ends
  | .innerFolders, s => (behindSlash s).flatMap fun s => s :: endsBehindSlash s
  | .oneOf _ _, [] => []
  | .oneOf negated ranges, b :: s => if inRanges ranges b != negated then [s] else []
  | .choice patterns, s => restsOfAny patterns s

def restsOf : List Token → Bytes → List Bytes
  | [], s => [s]
  | token :: tokens, s => ((token.rests s).eraseDups.flatMap (restsOf tokens)).eraseDups

def restsOfAny : List (List Token) → Bytes → List Bytes
  | [], _ => []
  | tokens :: patterns, s => restsOf tokens s ++ restsOfAny patterns s

end

/-- Whether a pattern fits the whole of some bytes; `**` alone fits anything. -/
def fits : List Token → Bytes → Bool
  | [.leadingFolders], _ => true
  | tokens, s => (restsOf tokens s).contains []

/-- Alternatives of which the last is still being read; both lists have their last item first. -/
structure Alternation where
  finished : List (List Token)
  current : List Token

namespace Alternation

def push (here : Alternation) (token : Token) : Alternation :=
  ⟨here.finished, token :: here.current⟩

def close (here : Alternation) : Alternation := ⟨here.current.reverse :: here.finished, []⟩

/-- The choice between the alternatives, of which empty ones do not count; the choice between none
is empty itself. -/
def tokens (here : Alternation) : List Token :=
  match here.close.finished.reverse.filter (!·.isEmpty) with
  | [] => []
  | patterns => [.choice patterns]

/-- A name that is `**` behind a slash; `last` if nothing follows it. -/
def pushFolders (last : Bool) (here : Alternation) : Alternation :=
  match here.current with
  | .leadingFolders :: _ | .contents :: _ => here
  | current => ⟨here.finished, (if last then .contents else .innerFolders) :: current.tail⟩

end Alternation

/-- The ranges of bytes between two characters: those of the last byte of each, and the others
one by one. -/
def byteRanges (low high : Char) : List (UInt8 × UInt8) :=
  let first := Text.bytes [low]
  let last := Text.bytes [high]
  if low = high then first.map fun b => (b, b)
  else
    first.dropLast.map (fun b => (b, b)) ++
      [(first.getLast?.getD 0, last.head?.getD 0)] ++ last.tail.map fun b => (b, b)

def rangesOf (pairs : List (Char × Char)) : List (UInt8 × UInt8) :=
  pairs.flatMap fun (low, high) => byteRanges low high

inductive SetReading where
  /-- A set, and the text behind it. -/
  | set (pairs : List (Char × Char)) (rest : Text)
  /-- The bracket is never closed. -/
  | unclosed
  /-- A range runs backwards. -/
  | backwards

/-- Reads the members of a set, the last one first in `pairs`; `dash` if the text so far ends in a
dash that may start a range. -/
def readSet (pairs : List (Char × Char)) (dash : Bool) : Text → SetReading
  | [] => .unclosed
  | c :: s =>
    match pairs with
    | [] => readSet [(c, c)] false s
    | (low, high) :: others =>
      if c = ']' then .set (if dash then ('-', '-') :: pairs else pairs) s
      else if dash then
        if c < low then .backwards else readSet ((low, c) :: others) false s
      else if c = '-' then readSet ((low, high) :: others) true s
      else readSet ((c, c) :: pairs) false s

/-- Reads the tokens of a pattern: within the alternations `outer`, behind the character `before`.
Nothing is read if braces do not match, a range runs backwards or a backslash stands last. -/
def readTokens : Nat → List Alternation → Alternation → Option Char → Text → Option (List Token)
  | 0, _, _, _, _ => none
  | limit + 1, outer, here, before, s =>
    let literal (c : Char) (rest : Text) : Option (List Token) :=
      readTokens limit outer (here.push (.literal (Text.bytes [c]))) (some c) rest
    let run (rest : Text) : Option (List Token) :=
      readTokens limit outer (here.push .anyRun) (some '*') rest
    match s with
    | [] => if outer.isEmpty then some here.current.reverse else none
    | '?' :: s => readTokens limit outer (here.push .anyByte) (some '?') s
    | '*' :: '*' :: s =>
      if here.current.isEmpty then
        match s with
        | [] => readTokens limit outer (here.push .leadingFolders) (some '*') []
        | '/' :: s => readTokens limit outer (here.push .leadingFolders) (some '/') s
        | s => run s
      else if before ≠ some '/' then run s
      else
        match s with
        | [] => readTokens limit outer (here.pushFolders true) (some '*') []
        | '/' :: s => readTokens limit outer (here.pushFolders false) (some '/') s
        | c :: s =>
          if !outer.isEmpty && (c == ',' || c == '\x7d') then
            readTokens limit outer (here.pushFolders true) (some '*') (c :: s)
          else run (c :: s)
    | '*' :: s => run s
    | '[' :: s =>
      let negated := s.head? == some '!' || s.head? == some '^'
      match readSet [] false (if negated then s.tail else s) with
      | .set pairs rest =>
        readTokens limit outer (here.push (.oneOf negated (rangesOf pairs))) (some ']') rest
      | .unclosed => literal '[' s
      | .backwards => none
    | '\x7b' :: s => readTokens limit (here :: outer) ⟨[], []⟩ (some '\x7b') s
    | '\x7d' :: s =>
      match outer with
      | [] => none
      | around :: outer =>
        let around := here.tokens.foldl Alternation.push around
        readTokens limit outer around (some '\x7d') s
    | ',' :: s =>
      if outer.isEmpty then literal ',' s else readTokens limit outer here.close (some ',') s
    | '\\' :: s =>
      match s with
      | [] => none
      | c :: s => literal c s
    | c :: s => literal c s

def readPattern (s : Text) : Option (List Token) :=
  readTokens (s.length + 1) [] ⟨[], []⟩ none s

end DocSig.Files
