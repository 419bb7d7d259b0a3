import DocSig.Text.Basic

/-!
The tags of a documentation comment.

A comment is stripped of its delimiters and read line by line, each line without the gutter that
it begins with (`Docblock.readLine`). An `@` before an ASCII letter, at the start of a line or
behind white space, starts a tag; what follows its name is its body, in this line and in the lines
after it, up to the next tag.
-/

set_option autoImplicit false

namespace DocSig

/-- One tag: its name with the `@`, and the text up to the next tag. -/
structure Tag where
  label : Text
  body : Text
deriving Repr, BEq, DecidableEq

namespace Docblock

def inner? (comment : Text) : Option Text :=
  (Text.after? "/**".toList comment.trim).bind (Text.before? "*/".toList)

/-- A line without its indentation, an asterisk, and the white space behind that. -/
def stripGutter (line : Text) : Text :=
  match line.trimStart with
  | '*' :: rest => Text.trimStart rest
  | rest => rest

def isTagChar (c : Char) : Bool :=
  c.isAlphanum || c == '-' || c == '_' || c == '\\' || c == ':'

/-- Whether a character starts a tag, given whether it stands at the start of a line or
behind white space, and what follows it. -/
def startsTag (atBoundary : Bool) (c : Char) (next : Text) : Bool :=
  c == '@' && atBoundary && next.head?.any Char.isAlpha

/-- Tags of which the last one comes first, with more text in the body of that one; text in front
of all tags belongs to none. -/
def extend (text : Text) : List Tag → List Tag
  | [] => []
  | tag :: earlier => ⟨tag.label, tag.body ++ text⟩ :: earlier

/-- The tags, last one first, with what the rest of a line adds to them. Of the line it is known
whether a tag may start, what has been read since the name of the last tag or the start of the
line (last character first), and how many characters of a name are still to be passed over. -/
def readLine (tags : List Tag) (atBoundary : Bool) (pending : Text) : Nat → Text → List Tag
  | _, [] => extend pending.reverse tags
  | skip + 1, c :: s => readLine tags (isBlank c) pending skip s
  | 0, c :: s =>
    if startsTag atBoundary c s then
      let word := s.takeWhile isTagChar
      readLine (⟨c :: word, []⟩ :: extend pending.reverse tags) (isBlank c) [] word.length s
    else readLine tags (isBlank c) (c :: pending) 0 s

/-- The tags, last one first, with what one more line adds to them. -/
def addLine (tags : List Tag) (line : Text) : List Tag :=
  readLine (extend ['\n'] tags) true [] 0 (stripGutter line)

/-- The tags of a comment, or nothing if it is not delimited as one. -/
def tags? (comment : Text) : Option (List Tag) :=
  (inner? comment).map fun inner =>
    (inner.lines.foldl addLine []).reverse.map fun tag => ⟨tag.label, tag.body.trim⟩

end Docblock

end DocSig
