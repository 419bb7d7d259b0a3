import DocSig.Proofs.Bisection
import DocSig.Proofs.Text.Bytes
import DocSig.Proofs.Text.Scan

/-!
The line that a byte offset falls on is one more than the number of line feeds before it.

In a text below 4 GiB the starts of lines fit words of 32 bits and ascend
(`ascending_startsAfterFeeds`), so the binary search counts the starts up to an offset. There are as
many of these, that of the first line apart, as line feeds before the offset
(`countP_startsAfterFeeds`). The count fits a word but for one place: the end of a text that is
nothing but line feeds, as many as a word can count at most (`IsPastCount`), where it falls to zero
(`lineOf_feeds`).
-/

set_option autoImplicit false

namespace DocSig

namespace Text

/-- The number of line feeds among the bytes before an offset. -/
def feedsBefore (s : Text) (offset : Nat) : Nat := (s.bytes.take offset).count 0x0A

theorem feedsBefore_append (s t : Text) (offset : Nat) :
    (s ++ t).feedsBefore (s.byteSize + offset) = s.count '\n' + t.feedsBefore offset := by
  rw [feedsBefore, bytes_append, ← length_bytes, List.take_length_add_append, List.count_append,
    count_bytes]
  rfl

/-- No line feed is met before the end of a character. -/
theorem feedsBefore_within {c : Char} (s : Text) {offset : Nat} (within : offset < c.utf8Size) :
    feedsBefore (c :: s) offset = 0 := by
  by_cases same : c = '\n'
  · subst same
    have start : offset = 0 := Nat.lt_one_iff.mp within
    rw [start]
    rfl
  · rw [← String.length_utf8EncodeChar] at within
    rw [feedsBefore, bytes_cons, List.take_append_of_le_length (Nat.le_of_lt within)]
    exact List.count_eq_zero.mpr fun found =>
      lineFeed_not_mem_utf8EncodeChar same (List.mem_of_mem_take found)

theorem feedsBefore_succ (s : Text) (offset : Nat) :
    s.feedsBefore (offset + 1) =
      s.feedsBefore offset + if s.bytes[offset]? = some 0x0A then 1 else 0 := by
  rw [feedsBefore, feedsBefore, List.take_add_one, List.count_append]
  cases s.bytes[offset]? with
  | none => rfl
  | some b => simp [List.count_singleton]

theorem feedsBefore_le_count (s : Text) (offset : Nat) : s.feedsBefore offset ≤ s.count '\n' := by
  rw [← count_bytes]
  exact (List.take_sublist offset s.bytes).count_le 0x0A

theorem feedsBefore_le (s : Text) (offset : Nat) : s.feedsBefore offset ≤ offset :=
  Nat.le_trans List.count_le_length (List.length_take_le offset s.bytes)

end Text

namespace LineIndex

section

variable {bytes : List UInt8} {place : Nat}

theorem toNat_ofNat_add_one (fits : place + 1 < UInt32.size) :
    (UInt32.ofNat place + 1).toNat = place + 1 := by
  have one : (1 : UInt32).toNat = 1 := rfl
  rw [UInt32.toNat_add, UInt32.toNat_ofNat_of_lt' (Nat.lt_of_succ_lt fits), one]
  exact Nat.mod_eq_of_lt fits

/-- A line behind a line feed starts behind the first of the bytes. -/
theorem lt_startsAfterFeeds (fits : place + bytes.length < UInt32.size) :
    ∀ start ∈ startsAfterFeeds place bytes, place < start.toNat := by
  induction bytes generalizing place with
  | nil => nofun
  | cons b bytes ih =>
      rw [List.length_cons] at fits
      have later : ∀ start ∈ startsAfterFeeds (place + 1) bytes, place < start.toNat := by
        intro start found
        have behind := ih (by omega) start found
        omega
      rw [startsAfterFeeds]
      split
      · refine List.forall_mem_cons.mpr ⟨?_, later⟩
        rw [toNat_ofNat_add_one (by omega)]
        exact Nat.lt_succ_self place
      · exact later

theorem ascending_startsAfterFeeds (fits : place + bytes.length < UInt32.size) :
    (startsAfterFeeds place bytes).Pairwise (· < ·) := by
  induction bytes generalizing place with
  | nil => exact List.Pairwise.nil
  | cons b bytes ih =>
      rw [List.length_cons] at fits
      have inner : place + 1 + bytes.length < UInt32.size := by omega
      rw [startsAfterFeeds]
      split
      · refine List.pairwise_cons.mpr ⟨fun start found => ?_, ih inner⟩
        rw [UInt32.lt_iff_toNat_lt, toNat_ofNat_add_one (by omega)]
        exact lt_startsAfterFeeds inner start found
      · exact ih inner

/-- As many lines start up to an offset, behind line feeds, as line feeds stand before it. -/
theorem countP_startsAfterFeeds (fits : place + bytes.length < UInt32.size) {offset : UInt32}
    {count : Nat} (upTo : offset.toNat = place + count) :
    (startsAfterFeeds place bytes).countP (· ≤ offset) = (bytes.take count).count 0x0A := by
  induction bytes generalizing place count with
  | nil => simp [startsAfterFeeds]
  | cons b bytes ih =>
      rw [List.length_cons] at fits
      cases count with
      | zero =>
          rw [List.take_zero, List.count_nil, List.countP_eq_zero]
          intro start found reached
          have behind := lt_startsAfterFeeds (by rw [List.length_cons]; exact fits) start found
          have before := UInt32.le_iff_toNat_le.mp (of_decide_eq_true reached)
          omega
      | succ count =>
          have inner : place + 1 + bytes.length < UInt32.size := by omega
          have onward : offset.toNat = place + 1 + count := by omega
          have later := ih inner onward
          rw [startsAfterFeeds, List.take_succ_cons, List.count_cons]
          split
          · next feed =>
              have reached : UInt32.ofNat place + 1 ≤ offset := by
                rw [UInt32.le_iff_toNat_le, toNat_ofNat_add_one (by omega)]
                omega
              rw [List.countP_cons, later, if_pos (decide_eq_true reached),
                if_pos (beq_iff_eq.mpr feed)]
          · next other => rw [later, if_neg (by simpa using other), Nat.add_zero]

end

variable {text : Text} {offset : UInt32}

theorem endsOnce_starts (small : text.byteSize < UInt32.size) (offset : UInt32) :
    EndsOnce (fun start : UInt32 => decide (start ≤ offset))
      (0 :: startsAfterFeeds 0 text.bytes) := by
  have fits : 0 + text.bytes.length < UInt32.size := by rwa [Nat.zero_add, Text.length_bytes]
  have ascending : (0 :: startsAfterFeeds 0 text.bytes).Pairwise (· < ·) :=
    List.pairwise_cons.mpr ⟨lt_startsAfterFeeds fits, ascending_startsAfterFeeds fits⟩
  refine ascending.imp fun order later => ?_
  rw [decide_eq_true_eq] at later ⊢
  exact UInt32.le_trans (UInt32.le_of_lt order) later

/-- The line is the count of the line feeds before it and one more, cut down to a word. -/
theorem lineOf_eq (small : text.byteSize < UInt32.size) (offset : UInt32) :
    (ofText text).lineOf offset = UInt32.ofNat (1 + text.feedsBefore offset.toNat) := by
  have fits : 0 + text.bytes.length < UInt32.size := by rwa [Nat.zero_add, Text.length_bytes]
  have later := countP_startsAfterFeeds fits (Nat.zero_add offset.toNat).symm
  have first : decide ((0 : UInt32) ≤ offset) = true := decide_eq_true (Nat.zero_le offset.toNat)
  rw [lineOf, ofText, countFront_eq (endsOnce_starts small offset), List.countP_cons, later,
    if_pos first, Nat.add_comm]
  rfl

/-- The one place that has no line: the end of a text of nothing but line feeds, as many as a word
of 32 bits can count at most. -/
def IsPastCount (text : Text) (offset : UInt32) : Prop :=
  text.count '\n' = UInt32.size - 1 ∧ offset.toNat = text.byteSize

/-- In every other place the count of the line feeds and one more fits a word. -/
theorem toNat_lineOf (small : text.byteSize < UInt32.size) (within : offset.toNat ≤ text.byteSize)
    (counts : ¬ IsPastCount text offset) :
    ((ofText text).lineOf offset).toNat = 1 + text.feedsBefore offset.toNat := by
  have before := text.feedsBefore_le offset.toNat
  have all := text.feedsBefore_le_count offset.toNat
  have bytes : text.count '\n' ≤ text.byteSize := by
    rw [← Text.count_bytes, ← Text.length_bytes]
    exact List.count_le_length
  have fits : 1 + text.feedsBefore offset.toNat < UInt32.size := by
    by_contra past
    exact counts ⟨by omega, by omega⟩
  rw [lineOf_eq small, UInt32.toNat_ofNat_of_lt' fits]

/-- A text below 4 GiB of nothing but line feeds. -/
def feeds : Text := List.replicate (UInt32.size - 1) '\n'

theorem bytes_replicate_feed (n : Nat) :
    Text.bytes (List.replicate n '\n') = List.replicate n 0x0A := by
  induction n with
  | zero => rfl
  | succ n ih => rw [List.replicate_succ, Text.bytes_cons, ih, List.replicate_succ]; rfl

theorem byteSize_feeds : feeds.byteSize = UInt32.size - 1 := by
  rw [← Text.length_bytes, feeds, bytes_replicate_feed, List.length_replicate]

/-- At its end one more than the number of the line feeds before no longer fits a word: the line is
none that there is. -/
theorem lineOf_feeds :
    feeds.byteSize < UInt32.size ∧
      (UInt32.ofNat (UInt32.size - 1)).toNat = feeds.byteSize ∧
      (ofText feeds).lineOf (UInt32.ofNat (UInt32.size - 1)) = 0 ∧
      ((ofText feeds).lineOf (UInt32.ofNat (UInt32.size - 1))).toNat ≠
        1 + feeds.feedsBefore feeds.byteSize := by
  have small : feeds.byteSize < UInt32.size := by
    rw [byteSize_feeds]
    decide
  have place : (UInt32.ofNat (UInt32.size - 1)).toNat = feeds.byteSize := by
    rw [byteSize_feeds]
    rfl
  have before : feeds.feedsBefore feeds.byteSize = UInt32.size - 1 := by
    rw [Text.feedsBefore, ← Text.length_bytes, List.take_length, feeds, bytes_replicate_feed,
      List.count_replicate_self]
  have none_ : (ofText feeds).lineOf (UInt32.ofNat (UInt32.size - 1)) = 0 := by
    rw [lineOf_eq small, place, before]
    rfl
  refine ⟨small, place, none_, ?_⟩
  rw [none_, before]
  decide

/-- In a text below 4 GiB the line of an offset is one more than the number of line feeds before
it, but for the one place whose count does not fit. So it is at least 1 and at most the number of
lines; it grows by one behind each line feed and stays the same behind any other byte. Each byte of
a character, however many it has, is on the line that the line feeds among the characters before it
tell, whatever the others are. -/
theorem lineOf_ofText (small : text.byteSize < UInt32.size) (within : offset.toNat ≤ text.byteSize)
    (counts : ¬ IsPastCount text offset) :
    ((ofText text).lineOf offset).toNat = 1 + text.feedsBefore offset.toNat ∧
      1 ≤ ((ofText text).lineOf offset).toNat ∧
      ((ofText text).lineOf offset).toNat ≤ (text.splitOn '\n').length ∧
      (∀ next : UInt32, next.toNat = offset.toNat + 1 → next.toNat ≤ text.byteSize →
        ¬ IsPastCount text next → ((ofText text).lineOf next).toNat =
          ((ofText text).lineOf offset).toNat +
            (if text.bytes[offset.toNat]? = some 0x0A then 1 else 0)) ∧
      ∀ (before : Text) c behind i, text = before ++ c :: behind →
        offset.toNat = before.byteSize + i → i < c.utf8Size →
          ((ofText text).lineOf offset).toNat = 1 + before.count '\n' := by
  have line := toNat_lineOf small within counts
  refine ⟨line, ?_, ?_, ?_, ?_⟩
  · rw [line]
    exact Nat.le_add_right 1 _
  · rw [line, Text.length_splitOn, Nat.add_comm]
    exact Nat.succ_le_succ (text.feedsBefore_le_count _)
  · intro next place inside fits
    rw [line, toNat_lineOf small inside fits, place, Text.feedsBefore_succ, Nat.add_assoc]
  · rintro before c behind i whole place inside
    rw [line, place, whole, Text.feedsBefore_append, Text.feedsBefore_within behind inside]
    rfl

/-- A line that ends in a carriage return and a line feed, with a line behind it. -/
def wideText : Text := "é\r\n中\n".toList

/-- The second of three bytes of a character, behind a line feed. -/
theorem lineOf_wideText :
    wideText = "é\r\n".toList ++ '中' :: "\n".toList ∧ 1 < '中'.utf8Size ∧
      wideText.byteSize < UInt32.size ∧ (5 : UInt32).toNat ≤ wideText.byteSize ∧
      ¬ IsPastCount wideText 5 ∧
      ((ofText wideText).lineOf 5).toNat = 2 ∧ ((ofText wideText).lineOf 6).toNat = 2 := by
  have size : wideText.byteSize = 8 := by decide
  have small : wideText.byteSize < UInt32.size := by
    rw [size]
    decide
  have within : (5 : UInt32).toNat ≤ wideText.byteSize := by
    rw [size]
    decide
  have inside : 1 < '中'.utf8Size := by decide
  have few (offset : UInt32) : ¬ IsPastCount wideText offset := fun past =>
    absurd past.1 (by decide)
  obtain ⟨-, -, -, grows, told⟩ := lineOf_ofText small within (few 5)
  have second : ((ofText wideText).lineOf 5).toNat = 2 :=
    told "é\r\n".toList '中' "\n".toList 1 rfl rfl inside
  refine ⟨rfl, inside, small, within, few 5, second, ?_⟩
  rw [grows 6 rfl (by rw [size]; decide) (few 6), second]
  decide

end LineIndex

end DocSig
