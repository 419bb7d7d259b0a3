import DocSig.Text.Basic

/-!
UTF-8, read strictly (`decode?`) and with replacements (`decodeLossy`).

A lead byte fixes how many bytes follow and within which limits the first of them lies, so that
overlong forms, surrogates and numbers past U+10FFFF are refused at the earliest byte
(`Lead.ofByte?`). The lossy reading puts one U+FFFD in the place of every byte that starts nothing
and of every start of a character that is broken off.
-/

set_option autoImplicit false

namespace DocSig.Utf8

/-- What a lead byte says of the character that it starts: its topmost bits, the limits of the
next byte, and how many bytes follow after that one. -/
structure Lead where
  bits : Nat
  least : Nat
  greatest : Nat
  more : Nat

/-- The meaning of a byte that starts a character of several bytes. -/
def Lead.ofByte? (byte : UInt8) : Option Lead :=
  let n := byte.toNat
  if 0xC2 ≤ n && n ≤ 0xDF then some ⟨n - 0xC0, 0x80, 0xBF, 0⟩
  else if n == 0xE0 then some ⟨0, 0xA0, 0xBF, 1⟩
  else if n == 0xED then some ⟨0xD, 0x80, 0x9F, 1⟩
  else if 0xE1 ≤ n && n ≤ 0xEF then some ⟨n - 0xE0, 0x80, 0xBF, 1⟩
  else if n == 0xF0 then some ⟨0, 0x90, 0xBF, 2⟩
  else if 0xF1 ≤ n && n ≤ 0xF3 then some ⟨n - 0xF0, 0x80, 0xBF, 2⟩
  else if n == 0xF4 then some ⟨4, 0x80, 0x8F, 2⟩
  else none

/-- A reading of bytes: characters, and `none` wherever bytes form no character. -/
abbrev Reading := List (Option Char)

/-- Where a reading stands: between two characters, or within one, with the bits so far, the
limits of the next byte and the number of bytes after that one. -/
inductive State where
  | between
  | within (bits least greatest more : Nat)

/-- The reading of one byte in a state, and the state after it. -/
def State.step (state : State) (byte : UInt8) : Reading × State :=
  let n := byte.toNat
  let start : Reading × State :=
    if n < 0x80 then ([some (Char.ofNat n)], .between)
    else
      match Lead.ofByte? byte with
      | some lead => ([], .within lead.bits lead.least lead.greatest lead.more)
      | none => ([none], .between)
  match state with
  | .between => start
  | .within bits least greatest more =>
    if least ≤ n && n ≤ greatest then
      let bits := bits * 64 + (n - 0x80)
      match more with
      | 0 => ([some (Char.ofNat bits)], .between)
      | more + 1 => ([], .within bits 0x80 0xBF more)
    else (none :: start.1, start.2)

/-- The reading of bytes from a state; a character that the end breaks off is none. -/
def State.read : State → List UInt8 → Reading
  | .between, [] => []
  | .within _ _ _ _, [] => [none]
  | state, byte :: bytes => (state.step byte).1 ++ State.read (state.step byte).2 bytes

def read (bytes : List UInt8) : Reading := State.between.read bytes

def decode? (bytes : List UInt8) : Option Text := (read bytes).mapM id

/-- The text of bytes, with U+FFFD for what is not UTF-8. -/
def decodeLossy (bytes : List UInt8) : Text := (read bytes).map (·.getD (Char.ofNat 0xFFFD))

end DocSig.Utf8
