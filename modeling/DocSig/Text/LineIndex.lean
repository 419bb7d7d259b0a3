import DocSig.Bisection
import DocSig.Text.Basic

/-!
Byte offsets of a text and the lines that they fall on.

Offsets and lines are words of 32 bits, and what does not fit a word is cut down to it.
-/

set_option autoImplicit false

namespace DocSig

namespace Text

def bytes (s : Text) : List UInt8 := s.flatMap String.utf8EncodeChar

def byteSize : Text → Nat
  | [] => 0
  | c :: s => c.utf8Size + byteSize s

end Text

/-- Where the lines of a text start. -/
structure LineIndex where
  starts : Array UInt32
deriving Repr, BEq, DecidableEq

namespace LineIndex

/-- The offsets behind each line feed among some bytes, of which the first has the given place. -/
def startsAfterFeeds (place : Nat) : List UInt8 → List UInt32
  | [] => []
  | b :: bytes =>
    if b = 0x0A then (UInt32.ofNat place + 1) :: startsAfterFeeds (place + 1) bytes
    else startsAfterFeeds (place + 1) bytes

def ofText (s : Text) : LineIndex := ⟨(0 :: startsAfterFeeds 0 s.bytes).toArray⟩

/-- The line that a byte offset falls on, counted from 1: the number of lines that start up to
there. -/
def lineOf (index : LineIndex) (offset : UInt32) : UInt32 :=
  UInt32.ofNat (countFront (· ≤ offset) index.starts)

end LineIndex

end DocSig
