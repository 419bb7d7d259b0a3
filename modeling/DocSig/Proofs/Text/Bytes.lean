import DocSig.Text.LineIndex
import Mathlib.Data.List.Basic

/-!
The bytes of a text, character by character.

All bytes of a character outside of ASCII lie above ASCII, so the byte of a line feed is in the
encoding of no other character (`lineFeed_not_mem_utf8EncodeChar`), and counting these bytes counts
the line feeds (`count_bytes`).
-/

set_option autoImplicit false

namespace DocSig.Text

theorem byteSize_pos {s : Text} (some : s ≠ []) : 0 < s.byteSize := by
  cases s with
  | nil => exact absurd rfl some
  | cons c s => exact Nat.add_pos_left (Char.utf8Size_pos c) _

theorem bytes_cons (c : Char) (s : Text) :
    Text.bytes (c :: s) = String.utf8EncodeChar c ++ s.bytes := List.flatMap_cons

theorem bytes_append (s t : Text) : (s ++ t).bytes = s.bytes ++ t.bytes := List.flatMap_append

theorem length_bytes (s : Text) : s.bytes.length = s.byteSize := by
  induction s with
  | nil => rfl
  | cons c s ih =>
      rw [bytes_cons, List.length_append, String.length_utf8EncodeChar]
      exact congrArg (c.utf8Size + ·) ih

theorem le_of_mem_utf8EncodeChar {c : Char} {b : UInt8} (wide : ¬ c.val.toNat ≤ 0x7F)
    (found : b ∈ String.utf8EncodeChar c) : 0x80 ≤ b.toNat := by
  -- a first byte is marked by at least `0xc0`, all others by `0x80`
  unfold String.utf8EncodeChar at found
  rw [if_neg wide] at found
  split at found
  · simp only [List.mem_cons, List.not_mem_nil, or_false] at found
    rcases found with rfl | rfl <;> rw [UInt8.toNat_ofNat'] <;> omega
  · split at found <;> simp only [List.mem_cons, List.not_mem_nil, or_false] at found
    · rcases found with rfl | rfl | rfl <;> rw [UInt8.toNat_ofNat'] <;> omega
    · rcases found with rfl | rfl | rfl | rfl <;> rw [UInt8.toNat_ofNat'] <;> omega

theorem lineFeed_not_mem_utf8EncodeChar {c : Char} (other : c ≠ '\n') :
    0x0A ∉ String.utf8EncodeChar c := by
  intro found
  by_cases narrow : c.val.toNat ≤ 0x7F
  · have single : String.utf8EncodeChar c = [UInt8.ofNat c.val.toNat] := if_pos narrow
    rw [single, List.mem_singleton] at found
    have code := congrArg UInt8.toNat found
    rw [UInt8.toNat_ofNat', Nat.mod_eq_of_lt (by omega)] at code
    exact other (Char.ext (UInt32.toNat_inj.mp code.symm))
  · exact absurd (le_of_mem_utf8EncodeChar narrow found) (by decide)

theorem count_utf8EncodeChar (c : Char) :
    (String.utf8EncodeChar c).count 0x0A = if c = '\n' then 1 else 0 := by
  split
  · next same =>
      rw [same]
      rfl
  · next other => exact List.count_eq_zero.mpr (lineFeed_not_mem_utf8EncodeChar other)

theorem count_bytes (s : Text) : s.bytes.count 0x0A = s.count '\n' := by
  induction s with
  | nil => rfl
  | cons c s ih =>
      rw [bytes_cons, List.count_append, ih, count_utf8EncodeChar, List.count_cons, Nat.add_comm]
      simp only [beq_iff_eq]

end DocSig.Text
