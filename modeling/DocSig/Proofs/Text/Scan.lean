import DocSig.Text.Basic
import Mathlib.Data.List.Basic

/-!
What the cuts of a text give on a word and what follows it: a run of characters of one class
ends where the word ends if the next character is not of that class.
-/

set_option autoImplicit false

namespace DocSig

/-- What a class says of a character, checked at all the code points that it can have. -/
theorem of_codes {codes : List Nat} (class? : Char → Bool) {c : Char} (code : c.toNat ∈ codes)
    (all : (codes.all fun n => class? (Char.ofNat n)) = true) : class? c = true := by
  have holds := List.all_eq_true.mp all c.toNat code
  rwa [Char.ofNat_toNat] at holds

def digitCodes : List Nat := [48, 49, 50, 51, 52, 53, 54, 55, 56, 57]

theorem mem_digitCodes {c : Char} (digit : c.isDigit = true) : c.toNat ∈ digitCodes := by
  have bounds : 48 ≤ c.toNat ∧ c.toNat ≤ 57 := Char.isDigit_iff_toNat.mp digit
  simp only [digitCodes, List.mem_cons, List.not_mem_nil, or_false]
  omega

theorem isBlank_of_isDigit {c : Char} (digit : c.isDigit = true) : isBlank c = false := by
  have solid := of_codes (fun c => !isBlank c) (mem_digitCodes digit) (by decide)
  simpa using solid

/-- What holds of each character of a text, checked one by one. -/
theorem forall_of_all {holds : Char → Prop} [DecidablePred holds] {s : Text}
    (all : s.all (fun c => decide (holds c)) = true) : ∀ c ∈ s, holds c :=
  fun c found => of_decide_eq_true (List.all_eq_true.mp all c found)

def StopsAt (class? : Char → Bool) (rest : Text) : Prop := ∀ c ∈ rest.head?, class? c = false

@[simp] theorem stopsAt_nil (class? : Char → Bool) : StopsAt class? [] := by
  intro c found
  cases found

@[simp] theorem stopsAt_cons (class? : Char → Bool) (c : Char) (rest : Text) :
    StopsAt class? (c :: rest) ↔ class? c = false := by
  simp [StopsAt]

theorem takeWhile_word (class? : Char → Bool) (word rest : Text)
    (all : ∀ c ∈ word, class? c = true) (stop : StopsAt class? rest) :
    (word ++ rest).takeWhile class? = word := by
  rw [List.takeWhile_append_of_pos all]
  cases rest with
  | nil => simp
  | cons c rest => simp [(stopsAt_cons class? c rest).mp stop]

theorem dropWhile_word (class? : Char → Bool) (word rest : Text)
    (all : ∀ c ∈ word, class? c = true) (stop : StopsAt class? rest) :
    (word ++ rest).dropWhile class? = rest := by
  rw [List.dropWhile_append_of_pos all]
  cases rest with
  | nil => rfl
  | cons c rest => simp [(stopsAt_cons class? c rest).mp stop]

theorem dropWhile_of_stopsAt (class? : Char → Bool) (rest : Text) (stop : StopsAt class? rest) :
    rest.dropWhile class? = rest :=
  dropWhile_word class? [] rest (by simp) stop

theorem stopsAt_dropWhile (class? : Char → Bool) (s : Text) :
    StopsAt class? (s.dropWhile class?) := by
  induction s with
  | nil => exact stopsAt_nil class?
  | cons c s ih =>
      rw [List.dropWhile_cons]
      split
      · exact ih
      · next outside => simpa using outside

namespace Text

@[simp] theorem trimStart_nil : trimStart [] = [] := rfl

theorem trimStart_cons_blank (c : Char) (rest : Text) (blank : isBlank c = true) :
    trimStart (c :: rest) = trimStart rest := by
  simp [trimStart, blank]

@[simp] theorem trimStart_space (rest : Text) : trimStart (' ' :: rest) = trimStart rest :=
  trimStart_cons_blank ' ' rest (by decide)

theorem trimStart_of_stopsAt (rest : Text) (stop : StopsAt isBlank rest) :
    trimStart rest = rest :=
  dropWhile_of_stopsAt isBlank rest stop

theorem trimStart_cons_solid (c : Char) (rest : Text) (solid : isBlank c = false) :
    trimStart (c :: rest) = c :: rest := by
  simp [trimStart, solid]

/-- White space is cut only behind the last character that is none. -/
theorem trimEnd_append (front rest : Text) (solid : ∀ c ∈ front.getLast?, isBlank c = false) :
    trimEnd (front ++ rest) = front ++ trimEnd rest := by
  have stays : front.reverse.dropWhile isBlank = front.reverse := by
    refine dropWhile_of_stopsAt isBlank front.reverse ?_
    intro c found
    rw [List.head?_reverse] at found
    exact solid c found
  simp only [trimEnd, List.reverse_append, List.dropWhile_append]
  split
  · next empty => simp [stays, List.isEmpty_iff.mp empty]
  · simp

theorem trimEnd_of_solid (s : Text) (solid : ∀ c ∈ s.getLast?, isBlank c = false) :
    trimEnd s = s := by
  have cut := trimEnd_append s [] solid
  simpa [trimEnd] using cut

theorem trimEnd_blank (s : Text) (c : Char) (blank : isBlank c = true) :
    trimEnd (s ++ [c]) = trimEnd s := by
  simp [trimEnd, blank]

@[simp] theorem after?_append (start s : Text) : after? start (start ++ s) = some s := by
  induction start with
  | nil => cases s <;> rfl
  | cons c start ih => simp [after?, ih]

theorem eq_append_of_after? {start s rest : Text} (found : after? start s = some rest) :
    s = start ++ rest := by
  fun_induction after? start s with
  | case1 s => exact Option.some.inj found
  | case2 => cases found
  | case3 start c s ih => rw [ih found, List.cons_append]
  | case4 => cases found

@[simp] theorem before?_append (s ending : Text) : before? ending (s ++ ending) = some s := by
  simp [before?]

/-- A line ends at the first line feed, if no carriage return stands before it. -/
theorem lines_append {line : Text} (rest : Text) (plain : '\n' ∉ line)
    (last : line.getLast? ≠ some '\r') : lines (line ++ '\n' :: rest) = line :: lines rest := by
  induction line with
  | nil => rfl
  | cons c line ih =>
      have notFeed : c ≠ '\n' := fun same => plain (same ▸ List.mem_cons_self)
      have later : '\n' ∉ line := fun found => plain (List.mem_cons_of_mem c found)
      cases line with
      | nil =>
          have notReturn : c ≠ '\r' := fun same => last (same ▸ rfl)
          simp [lines, notReturn]
      | cons d line =>
          have behind := ih later (by rwa [List.getLast?_cons_cons] at last)
          have notNext : d ≠ '\n' := fun same => later (same ▸ List.mem_cons_self)
          simp only [List.cons_append] at behind ⊢
          rw [lines, behind]
          · exact notFeed
          · rintro more - same
            exact notNext (List.cons.inj same).1

/-- Lines, each with its line feed, if none of them ends in a carriage return. -/
theorem lines_flatMap {parts : List Text} (plain : ∀ line ∈ parts, '\n' ∉ line)
    (last : ∀ line ∈ parts, line.getLast? ≠ some '\r') :
    lines (parts.flatMap (· ++ ['\n'])) = parts := by
  induction parts with
  | nil => rfl
  | cons line parts ih =>
      obtain ⟨here, later⟩ := List.forall_mem_cons.mp plain
      obtain ⟨ends, further⟩ := List.forall_mem_cons.mp last
      rw [List.flatMap_cons, List.append_assoc, List.singleton_append, lines_append _ here ends,
        ih later further]

/-- No line feed stands in a line. -/
theorem forall_mem_lines (s : Text) : ∀ line ∈ lines s, '\n' ∉ line := by
  fun_induction lines s with
  | case1 => nofun
  | case2 s ih => exact List.forall_mem_cons.mpr ⟨List.not_mem_nil, ih⟩
  | case3 s ih => exact List.forall_mem_cons.mpr ⟨List.not_mem_nil, ih⟩
  | case4 c s feed =>
      exact List.forall_mem_cons.mpr
        ⟨fun mark => feed (List.mem_singleton.mp mark).symm, nofun⟩
  | case5 c s feed _ first more cut ih =>
      rw [cut] at ih
      obtain ⟨here, later⟩ := List.forall_mem_cons.mp ih
      refine List.forall_mem_cons.mpr ⟨fun mark => ?_, later⟩
      rcases List.mem_cons.mp mark with same | inside
      · exact feed same.symm
      · exact here inside

/-- A closing quote that no backslash keeps from closing stands at the end and nowhere else. -/
def closesAtEnd (quote : Char) : Text → Bool
  | [] => false
  | '\\' :: _ :: s => closesAtEnd quote s
  | c :: s => if c = quote then s.isEmpty else closesAtEnd quote s

/-- A string that is closed at its end is its closing mark, or a string of that kind behind a
backslash with what it keeps from closing, or behind another character. -/
theorem closesAtEnd_induction {quote : Char} {motive : Text → Prop}
    (last : motive [quote]) (escaped : ∀ c s, motive s → motive ('\\' :: c :: s))
    (further : ∀ c s, c ≠ '\\' → c ≠ quote → motive s → motive (c :: s)) {body : Text}
    (closed : closesAtEnd quote body = true) : motive body := by
  fun_induction closesAtEnd quote body with
  | case1 => cases closed
  | case2 c s ih => exact escaped c s (ih closed)
  | case3 s single =>
      rw [List.isEmpty_iff.mp closed]
      exact last
  | case4 c s single other ih =>
      have plainChar : c ≠ '\\' := by
        rintro rfl
        cases s with
        | nil => cases closed
        | cons d s => exact single d s rfl rfl
      exact further c s plainChar other (ih closed)

theorem readQuoted_append (quote : Char) (body rest : Text)
    (closed : closesAtEnd quote body = true) (plain : quote ≠ '\\') :
    readQuoted quote (body ++ rest) = some (body, rest) := by
  refine closesAtEnd_induction
    (motive := fun body => readQuoted quote (body ++ rest) = some (body, rest)) ?_ ?_ ?_ closed
  · simp [readQuoted, plain]
  · intro c s ih
    simp [readQuoted, ih]
  · intro c s backslash other ih
    simp [readQuoted, backslash, other, ih]

theorem eq_append_of_readQuoted {quote : Char} {s body rest : Text}
    (read : readQuoted quote s = some (body, rest)) : s = body ++ rest := by
  fun_induction readQuoted quote s generalizing body with
  | case1 => cases read
  | case2 c s ih =>
      obtain ⟨⟨inner, tail⟩, found, equal⟩ := Option.map_eq_some_iff.mp read
      cases equal
      rw [ih found]
      rfl
  | case3 s _ =>
      cases read
      rfl
  | case4 c s _ _ ih =>
      obtain ⟨⟨inner, tail⟩, found, equal⟩ := Option.map_eq_some_iff.mp read
      cases equal
      rw [ih found]
      rfl

/-- Texts behind a first one, each with the separator before it. -/
theorem join_cons (separator first : Text) (others : List Text) :
    join separator (first :: others) = first ++ others.flatMap (separator ++ ·) := by
  induction others generalizing first with
  | nil => simp [join, List.intercalate]
  | cons second others ih =>
      have step : join separator (first :: second :: others) =
          first ++ separator ++ join separator (second :: others) := by
        simp [join, List.intercalate]
      rw [step, ih]
      simp

@[simp] theorem join_nil (separator : Text) : join separator [] = [] := rfl

/-- A text without a line feed is one line, if it is not empty. -/
theorem lines_single {line : Text} (plain : '\n' ∉ line) (some : line ≠ []) :
    lines line = [line] := by
  induction line with
  | nil => exact absurd rfl some
  | cons c line ih =>
      have notFeed : c ≠ '\n' := fun same => plain (same ▸ List.mem_cons_self)
      have later : '\n' ∉ line := fun found => plain (List.mem_cons_of_mem c found)
      have behind : lines line = if line = [] then [] else [line] := by
        split
        · next empty => rw [empty, lines]
        · next full => exact ih later full
      rw [lines, behind]
      · cases line <;> rfl
      · exact notFeed
      · rintro more - rfl
        exact later List.mem_cons_self

/-- A line also ends at a carriage return before a line feed. -/
theorem lines_append_return {line : Text} (rest : Text) (noFeed : '\n' ∉ line)
    (noReturn : '\r' ∉ line) : lines (line ++ '\r' :: '\n' :: rest) = line :: lines rest := by
  induction line with
  | nil => rfl
  | cons c line ih =>
      rw [List.mem_cons, not_or] at noFeed noReturn
      rw [List.cons_append, lines, ih noFeed.2 noReturn.2]
      · exact Ne.symm noFeed.1
      · exact fun _ same => absurd same (Ne.symm noReturn.1)

/-- Parts with a line end between them are the lines, but for a last one that is empty. -/
theorem lines_join {ends : Text} (kind : ends = ['\n'] ∨ ends = ['\r', '\n']) {parts : List Text}
    (plain : ∀ part ∈ parts, '\n' ∉ part ∧ '\r' ∉ part) :
    lines (join ends parts) = if parts.getLast? = some [] then parts.dropLast else parts := by
  induction parts with
  | nil => rfl
  | cons part parts ih =>
      obtain ⟨⟨noFeed, noReturn⟩, later⟩ := List.forall_mem_cons.mp plain
      cases parts with
      | nil =>
          rw [join_cons, List.flatMap_nil, List.append_nil]
          by_cases empty : part = []
          · subst empty
            rfl
          · rw [lines_single noFeed empty, if_neg (by simpa using empty)]
      | cons next parts =>
          have cut : lines (part ++ (ends ++ join ends (next :: parts))) =
              part :: lines (join ends (next :: parts)) := by
            rcases kind with rfl | rfl
            · exact lines_append _ noFeed fun last => noReturn (List.mem_of_getLast? last)
            · exact lines_append_return _ noFeed noReturn
          have step : join ends (part :: next :: parts) =
              part ++ (ends ++ join ends (next :: parts)) := by
            simp [join_cons]
          rw [step, cut, ih later, List.getLast?_cons_cons]
          split <;> rfl

theorem length_le_join (separator : Text) {part : Text} {parts : List Text} (found : part ∈ parts) :
    part.length ≤ (join separator parts).length := by
  cases parts with
  | nil => cases found
  | cons first others =>
      rw [join_cons, List.length_append]
      rcases List.mem_cons.mp found with rfl | later
      · omega
      · obtain ⟨before, after, rfl⟩ := List.append_of_mem later
        simp only [List.flatMap_append, List.flatMap_cons, List.length_append]
        omega

/-- What holds of parts and separators, and of texts put together, holds of the parts joined. -/
theorem join_induction {motive : Text → Prop} (nil : motive [])
    (append : ∀ s t, motive s → motive t → motive (s ++ t)) {separator : Text} {parts : List Text}
    (between : motive separator) (each : ∀ part ∈ parts, motive part) :
    motive (join separator parts) := by
  cases parts with
  | nil => exact nil
  | cons first others =>
      obtain ⟨here, later⟩ := List.forall_mem_cons.mp each
      rw [join_cons]
      refine append _ _ here ?_
      clear each
      induction others with
      | nil => exact nil
      | cons second others ih =>
          obtain ⟨next, rest⟩ := List.forall_mem_cons.mp later
          exact append _ _ (append _ _ between next) (ih rest)

/-- Separators keep the parts apart, so there is at most one part more than characters. -/
theorem count_le_join (separator : Text) (parts : List Text) (visible : separator ≠ []) :
    parts.length ≤ (join separator parts).length + 1 := by
  have each : ∀ others : List Text, others.length ≤ (others.flatMap (separator ++ ·)).length := by
    intro others
    have positive := List.length_pos_iff.mpr visible
    induction others with
    | nil => simp
    | cons other others ih =>
        simp only [List.flatMap_cons, List.length_append, List.length_cons]
        omega
  cases parts with
  | nil => simp
  | cons first others =>
      have := each others
      rw [join_cons, List.length_append, List.length_cons]
      omega

theorem splitOn_ne_nil (separator : Char) (s : Text) : splitOn separator s ≠ [] := by
  cases s with
  | nil => exact List.cons_ne_nil _ _
  | cons c s =>
      rw [splitOn]
      split
      · exact List.cons_ne_nil _ _
      · split <;> exact List.cons_ne_nil _ _

theorem length_splitOn (separator : Char) (s : Text) :
    (splitOn separator s).length = s.count separator + 1 := by
  induction s with
  | nil => rfl
  | cons c s ih =>
      rw [splitOn, List.count_cons]
      split
      · next same => rw [List.length_cons, ih, same, if_pos (beq_self_eq_true _)]
      · next other =>
          obtain ⟨part, parts, cut⟩ := List.exists_cons_of_ne_nil (splitOn_ne_nil separator s)
          rw [if_neg fun same => other (beq_iff_eq.mp same), Nat.add_zero, ← ih, cut]
          rfl

end Text

/-- A character that neither ends a line nor opens or closes a string. -/
def isBare (c : Char) : Bool := c != '\n' && c != '\r' && c != '\'' && c != '"'

def Bare (s : Text) : Prop := ∀ c ∈ s, isBare c = true

/-- A class of characters that leaves out the four. -/
theorem isBare_of_class {class? : Char → Bool} {c : Char} (inside : class? c = true)
    (outside : ['\n', '\r', '\'', '"'].all (fun d => !class? d) = true) : isBare c = true := by
  by_contra marked
  have mark : c = '\n' ∨ c = '\r' ∨ c = '\'' ∨ c = '"' := by
    simp only [isBare, Bool.and_eq_true, bne_iff_ne] at marked
    tauto
  rcases mark with rfl | rfl | rfl | rfl <;> simp_all

@[simp] theorem bare_nil : Bare [] := nofun

@[simp] theorem bare_cons {c : Char} {s : Text} : Bare (c :: s) ↔ isBare c = true ∧ Bare s :=
  List.forall_mem_cons

@[simp] theorem bare_append {s t : Text} : Bare (s ++ t) ↔ Bare s ∧ Bare t :=
  List.forall_mem_append

theorem Bare.sublist {s t : Text} (bare : Bare t) (part : s.Sublist t) : Bare s :=
  fun c found => bare c (part.subset found)

end DocSig
