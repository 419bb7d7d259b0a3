import DocSig.Php.Lexer
import DocSig.Php.Outline
import DocSig.Proofs.Bisection
import DocSig.Proofs.Text.Bytes
import Mathlib.Data.List.Pairwise

/-!
The comment that documents what starts at a place of a source.

What stands between a documentation comment and that place must be white space and whole comments
of other kinds (`Gap`, `Documents`). At most one comment is of that kind, and it is the one that the
walk over the comments before the place ends at: one step of the walk moves the place to where
an ordinary comment starts (`documents_cons`), and the rest is found from there
(`nearestComment_eq_some_iff`).
-/

set_option autoImplicit false

namespace DocSig.Php

/-- One of two pieces of a source ends before the other one starts. -/
def Trivia.Apart (t u : Trivia) : Prop := t.stop ≤ u.start ∨ u.stop ≤ t.start

instance : Std.Symm Trivia.Apart := ⟨fun _ _ => Or.symm⟩

instance (t u : Trivia) : Decidable (t.Apart u) :=
  inferInstanceAs (Decidable (t.stop ≤ u.start ∨ u.stop ≤ t.start))

/-- White space and comments as they stand in a source: none is empty, they are in order and apart
from each other, and each is what the source has between its ends. -/
structure Placed (source : Text) (trivia : List Trivia) : Prop where
  some : ∀ t ∈ trivia, t.text ≠ []
  sorted : trivia.Pairwise fun t u => t.start ≤ u.start
  apart : trivia.Pairwise Trivia.Apart
  part : ∀ t ∈ trivia, byteRange source.bytes t.start t.stop = t.text.bytes

/-- Between two places there is nothing but white space and whole comments that document nothing:
a comment that reaches in between lies there as a whole and is of another kind, and every byte of
no comment is white space. -/
structure Gap (bytes : List UInt8) (trivia : List Trivia) (start stop : Nat) : Prop where
  whole : ∀ t ∈ trivia, t.start < stop → start < t.stop →
    start ≤ t.start ∧ t.stop ≤ stop ∧ t.kind ≠ .docComment
  blank : ∀ i, start ≤ i → i < stop → (∀ t ∈ trivia, i < t.start ∨ t.stop ≤ i) →
    ∃ b ∈ bytes[i]?, isBlankByte b = true

/-- A comment documents what starts at a place. -/
structure Documents (bytes : List UInt8) (trivia : List Trivia) (place : Nat) (t : Trivia) :
    Prop where
  listed : t ∈ trivia
  kind : t.kind = .docComment
  before : t.stop ≤ place
  gap : Gap bytes trivia t.stop place

theorem Placed.start_lt_stop {source : Text} {trivia : List Trivia} (placed : Placed source trivia)
    {t : Trivia} (listed : t ∈ trivia) : t.start < t.stop :=
  Nat.lt_add_of_pos_right (Text.byteSize_pos (placed.some t listed))

theorem all_byteRange_iff {bytes : List UInt8} {start stop : Nat} (within : stop ≤ bytes.length) :
    (byteRange bytes start stop).all isBlankByte = true ↔
      ∀ i, start ≤ i → i < stop → ∃ b ∈ bytes[i]?, isBlankByte b = true := by
  rw [List.all_eq_true]
  constructor
  · intro blank i above below
    have inside : i < bytes.length := by omega
    refine ⟨bytes[i], List.getElem?_eq_getElem inside, blank _ ?_⟩
    apply List.mem_of_getElem? (i := i - start)
    rw [byteRange, List.getElem?_take_of_lt (by omega), List.getElem?_drop,
      Nat.add_sub_cancel' above, List.getElem?_eq_getElem inside]
  · intro blank b inside
    obtain ⟨i, found⟩ := List.mem_iff_getElem?.mp inside
    have short : i < stop - start := by
      by_contra past
      rw [byteRange, List.getElem?_take, if_neg past] at found
      cases found
    rw [byteRange, List.getElem?_take_of_lt short, List.getElem?_drop] at found
    obtain ⟨other, same, given⟩ := blank (start + i) (by omega) (by omega)
    rw [found] at same
    cases same
    exact given

section

variable {bytes : List UInt8} {place : Nat} {t u : Trivia} {earlier : List Trivia}

/-- Trivia from the nearest one on, in the order of a walk back from a place. -/
structure Backward (place : Nat) (earlier : List Trivia) : Prop where
  some : ∀ t ∈ earlier, t.start < t.stop
  before : ∀ t ∈ earlier, t.stop ≤ place
  apart : earlier.Pairwise fun t u => u.stop ≤ t.start

theorem Backward.tail (backward : Backward place (t :: earlier)) : Backward t.start earlier where
  some u found := backward.some u (List.mem_cons_of_mem t found)
  before := (List.pairwise_cons.mp backward.apart).1
  apart := (List.pairwise_cons.mp backward.apart).2

/-- No other comment stands behind the nearest one. -/
theorem documents_nearest (backward : Backward place (t :: earlier)) (kind : t.kind = .docComment)
    (blank : ∀ i, t.stop ≤ i → i < place → ∃ b ∈ bytes[i]?, isBlankByte b = true) :
    Documents bytes (t :: earlier) place u ↔ u = t := by
  have before := backward.tail.before
  have some := backward.some t List.mem_cons_self
  constructor
  · intro documents
    rcases List.mem_cons.mp documents.listed with same | further
    · exact same
    · have behind := before u further
      have reaches := backward.before t List.mem_cons_self
      have whole := documents.gap.whole t List.mem_cons_self (by omega) (by omega)
      exact absurd kind whole.2.2
  · rintro rfl
    refine ⟨List.mem_cons_self, kind, backward.before u List.mem_cons_self, ?_, ?_⟩
    · intro v listed _ reaches
      rcases List.mem_cons.mp listed with rfl | further
      · omega
      · have behind := before v further
        omega
    · exact fun i above below _ => blank i above below

/-- Over an ordinary comment with white space behind it the walk goes on from where that starts. -/
theorem documents_cons (backward : Backward place (t :: earlier)) (kind : t.kind ≠ .docComment)
    (blank : ∀ i, t.stop ≤ i → i < place → ∃ b ∈ bytes[i]?, isBlankByte b = true) :
    Documents bytes (t :: earlier) place u ↔ Documents bytes earlier t.start u := by
  have before := backward.tail.before
  have some := backward.some t List.mem_cons_self
  have reaches := backward.before t List.mem_cons_self
  constructor
  · intro documents
    have further : u ∈ earlier := by
      rcases List.mem_cons.mp documents.listed with rfl | further
      · exact absurd documents.kind kind
      · exact further
    refine ⟨further, documents.kind, before u further, ?_, ?_⟩
    · intro v listed inside ended
      have whole := documents.gap.whole v (List.mem_cons_of_mem t listed) (by omega) ended
      exact ⟨whole.1, before v listed, whole.2.2⟩
    · intro i above below outside
      refine documents.gap.blank i above (by omega) (List.forall_mem_cons.mpr ⟨?_, outside⟩)
      exact Or.inl below
  · intro documents
    have behind := documents.before
    refine ⟨List.mem_cons_of_mem t documents.listed, documents.kind, by omega, ?_, ?_⟩
    · intro v listed _ ended
      rcases List.mem_cons.mp listed with rfl | further
      · exact ⟨behind, reaches, kind⟩
      · have within := before v further
        have nonempty := backward.some v listed
        have whole := documents.gap.whole v further (by omega) ended
        exact ⟨whole.1, by omega, whole.2.2⟩
    · intro i above below outside
      obtain ⟨here, others⟩ := List.forall_mem_cons.mp outside
      rcases here with inside | past
      · exact documents.gap.blank i above inside others
      · exact blank i past below

/-- The walk ends at the comment that documents the place, or finds none. -/
theorem nearestComment_eq_some_iff (backward : Backward place earlier)
    (within : place ≤ bytes.length) {text : Text} :
    nearestComment bytes place earlier = some text ↔
      ∃ t, Documents bytes earlier place t ∧ t.text = text := by
  induction earlier generalizing place with
  | nil => exact iff_of_false nofun fun ⟨t, documents, _⟩ => nomatch documents.listed
  | cons t earlier ih =>
      have reaches := backward.before t List.mem_cons_self
      have some := backward.some t List.mem_cons_self
      rw [nearestComment]
      by_cases blank : (byteRange bytes t.stop place).all isBlankByte = true
      · have bytesBlank := (all_byteRange_iff within).mp blank
        rw [if_pos blank]
        by_cases kind : t.kind = .docComment
        · simp only [kind, documents_nearest backward kind bytesBlank, exists_eq_left,
            Option.some_inj]
        · simp only [documents_cons backward kind bytesBlank]
          rw [← ih backward.tail (by omega)]
          cases given : t.kind with
          | docComment => exact absurd given kind
          | blank | lineComment | blockComment => rfl
      · rw [if_neg blank]
        refine iff_of_false nofun fun ⟨u, documents, _⟩ => blank ?_
        apply (all_byteRange_iff within).mpr
        intro i above below
        have last : u.stop ≤ t.stop ∧ ∀ v ∈ earlier, v.stop ≤ i := by
          refine ⟨?_, fun v found => ?_⟩
          · rcases List.mem_cons.mp documents.listed with rfl | further
            · exact Nat.le_refl _
            · have behind := backward.tail.before u further
              omega
          · have behind := backward.tail.before v found
            omega
        refine documents.gap.blank i (by omega) below (List.forall_mem_cons.mpr ⟨?_, ?_⟩)
        · exact Or.inr above
        · exact fun v found => Or.inr (last.2 v found)

end

section

variable {source : Text} {trivia : List Trivia} {place : Nat}

theorem Placed.endsOnce (placed : Placed source trivia) (place : Nat) :
    EndsOnce (fun t : Trivia => decide (t.start < place)) trivia := by
  refine placed.sorted.imp fun order later => ?_
  rw [decide_eq_true_eq] at later ⊢
  omega

/-- The trivia that start before a place, from the nearest one on. -/
theorem Placed.backward (placed : Placed source trivia)
    (outside : ∀ t ∈ trivia, ¬ (t.start < place ∧ place < t.stop)) :
    Backward place (trivia.filter fun t => decide (t.start < place)).reverse where
  some t found := placed.start_lt_stop (List.mem_filter.mp (List.mem_reverse.mp found)).1
  before t found := by
    obtain ⟨listed, starts⟩ := List.mem_filter.mp (List.mem_reverse.mp found)
    have free := outside t listed
    rw [decide_eq_true_eq] at starts
    omega
  apart := by
    rw [List.pairwise_reverse]
    apply List.Pairwise.filter
    refine (List.pairwise_and_iff.mpr ⟨placed.sorted, placed.apart⟩).imp_of_mem ?_
    rintro t u _ listed ⟨order, free⟩
    have some := placed.start_lt_stop listed
    rcases free with behind | behind <;> omega

/-- What starts behind a place has no part in what documents it. -/
theorem documents_filter {bytes : List UInt8} {t : Trivia} (some : ∀ t ∈ trivia, t.start < t.stop) :
    Documents bytes (trivia.filter fun t => decide (t.start < place)).reverse place t ↔
      Documents bytes trivia place t := by
  have mem : ∀ u, u ∈ (trivia.filter fun t => decide (t.start < place)).reverse ↔
      u ∈ trivia ∧ u.start < place := by
    intro u
    rw [List.mem_reverse, List.mem_filter, decide_eq_true_eq]
  constructor
  · intro documents
    refine ⟨((mem t).mp documents.listed).1, documents.kind, documents.before, ?_, ?_⟩
    · intro u listed inside ended
      exact documents.gap.whole u ((mem u).mpr ⟨listed, inside⟩) inside ended
    · intro i above below outside
      exact documents.gap.blank i above below fun u found => outside u ((mem u).mp found).1
  · intro documents
    have starts : t.start < place := by
      have nonempty := some t documents.listed
      have behind := documents.before
      omega
    refine ⟨(mem t).mpr ⟨documents.listed, starts⟩, documents.kind, documents.before, ?_, ?_⟩
    · exact fun u found => documents.gap.whole u ((mem u).mp found).1
    · intro i above below outside
      refine documents.gap.blank i above below fun u listed => ?_
      by_cases inside : u.start < place
      · exact outside u ((mem u).mpr ⟨listed, inside⟩)
      · exact Or.inl (by omega)

/-- At most one comment documents a place. -/
theorem Placed.documents_unique (placed : Placed source trivia) {t u : Trivia}
    (first : Documents source.bytes trivia place t)
    (second : Documents source.bytes trivia place u) : t = u := by
  have firstSome := placed.start_lt_stop first.listed
  have secondSome := placed.start_lt_stop second.listed
  have firstBefore := first.before
  have secondBefore := second.before
  by_contra other
  rcases placed.apart.forall first.listed second.listed other with behind | behind
  · exact (first.gap.whole u second.listed (by omega) (by omega)).2.2 second.kind
  · exact (second.gap.whole t first.listed (by omega) (by omega)).2.2 first.kind

/-- The comment found for what starts at a place is the one that documents it, if there is one; no
other comment does, and without one none is found. -/
theorem commentBefore_eq_some_iff (placed : Placed source trivia)
    (within : place ≤ source.byteSize)
    (outside : ∀ t ∈ trivia, ¬ (t.start < place ∧ place < t.stop)) :
    (∀ text, commentBefore source.bytes trivia place = some text ↔
        ∃ t ∈ trivia, Documents source.bytes trivia place t ∧ t.text = text) ∧
      (commentBefore source.bytes trivia place = none ↔
        ∀ t ∈ trivia, ¬ Documents source.bytes trivia place t) ∧
      ∀ t u, Documents source.bytes trivia place t → Documents source.bytes trivia place u →
        t = u := by
  have found : ∀ text, commentBefore source.bytes trivia place = some text ↔
      ∃ t ∈ trivia, Documents source.bytes trivia place t ∧ t.text = text := by
    intro text
    rw [commentBefore, take_countFront (placed.endsOnce place),
      nearestComment_eq_some_iff (placed.backward outside) (by rwa [Text.length_bytes])]
    constructor
    · rintro ⟨t, documents, same⟩
      have given := (documents_filter fun t => placed.start_lt_stop).mp documents
      exact ⟨t, given.listed, given, same⟩
    · rintro ⟨t, _, documents, same⟩
      exact ⟨t, (documents_filter fun t => placed.start_lt_stop).mpr documents, same⟩
  refine ⟨found, ?_, fun t u => placed.documents_unique⟩
  rw [Option.eq_none_iff_forall_ne_some]
  constructor
  · intro none t listed documents
    exact none t.text ((found t.text).mpr ⟨t, listed, documents, rfl⟩)
  · intro none text given
    obtain ⟨t, listed, documents, -⟩ := (found text).mp given
    exact none t listed documents

end

def commentedSource : Text := "<?php /** é */ f(); /** g */\n\n # é\nfunction g() \x7b\x7d".toList

def commentedTrivia : List Trivia := ((Lexemes.ofSource commentedSource).map (·.trivia)).getD []

theorem commentBefore_commentedSource :
    Placed commentedSource commentedTrivia ∧ 37 ≤ commentedSource.byteSize ∧
      (∀ t ∈ commentedTrivia, ¬ (t.start < 37 ∧ 37 < t.stop)) ∧
      ∃ t ∈ commentedTrivia, Documents commentedSource.bytes commentedTrivia 37 t ∧
        t.text = "/** g */".toList := by
  have placed : Placed commentedSource commentedTrivia :=
    ⟨by decide +kernel, by decide +kernel, by decide +kernel, by decide +kernel⟩
  have within : 37 ≤ commentedSource.byteSize := by decide +kernel
  have outside : ∀ t ∈ commentedTrivia, ¬ (t.start < 37 ∧ 37 < t.stop) := by decide +kernel
  refine ⟨placed, within, outside, ?_⟩
  exact ((commentBefore_eq_some_iff placed within outside).1 _).mp (by decide +kernel)

end DocSig.Php
