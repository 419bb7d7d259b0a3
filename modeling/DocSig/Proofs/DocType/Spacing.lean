import DocSig.Proofs.DocType.Allowance

/-!
Texts that differ in the white space at one place within brackets.

`Place` follows the characters of a text and tells brackets from what stands in quotes. `Respaced`
relates a text that has some white space at such a place to the one with other white space there. It
is kept by whatever a reader takes off the front of both: a mark, a word, a quoted string, or white
space, which may be the one that differs.
-/

set_option autoImplicit false

namespace DocSig.DocType

/-- A place in a text, by the characters before it: outside of quotes, within them, or within them
and behind a backslash; with the number of open brackets. -/
inductive Place where
  | code (depth : Nat)
  | quoted (depth : Nat) (quote : Char)
  | escaped (depth : Nat) (quote : Char)
deriving DecidableEq

/-- The number of open brackets behind a character outside of quotes. -/
def depthBehind (depth : Nat) (c : Char) : Nat :=
  if c = '(' ∨ c = '<' ∨ c = '\x7b' then depth + 1
  else if c = ')' ∨ c = '>' ∨ c = '\x7d' then depth - 1
  else depth

def Place.next : Place → Char → Place
  | .code depth, c =>
    if c = '\'' ∨ c = '"' then .quoted depth c else .code (depthBehind depth c)
  | .quoted depth quote, c =>
    if c = '\\' then .escaped depth quote
    else if c = quote then .code depth
    else .quoted depth quote
  | .escaped depth quote, _ => .quoted depth quote

def placeBehind (s : Text) : Place := s.foldl Place.next (.code 0)

structure Blanks (w : Text) : Prop where
  some : w ≠ []
  blank : ∀ c ∈ w, isBlank c = true
  ascii : ∀ c ∈ w, isAscii c = true

/-- White space, what stands in its place, and what comes behind both. -/
structure Gap where
  space : Text
  other : Text
  behind : Text
  blankSpace : Blanks space
  blankOther : Blanks other

def Gap.swap (gap : Gap) : Gap := ⟨gap.other, gap.space, gap.behind, gap.blankOther, gap.blankSpace⟩

/-- Two texts at a depth that are the same, or the same up to a gap within brackets. -/
inductive Respaced (gap : Gap) : Nat → Text → Text → Prop
  | same (depth : Nat) (s : Text) : Respaced gap depth s s
  | differs {depth : Nat} (inside : 0 < depth) :
      Respaced gap depth (gap.space ++ gap.behind) (gap.other ++ gap.behind)
  | code {depth : Nat} {c : Char} {s t : Text} (bare : ¬ (c = '\'' ∨ c = '"'))
      (further : Respaced gap (depthBehind depth c) s t) : Respaced gap depth (c :: s) (c :: t)
  | quoted {depth : Nat} {quote : Char} {body s t : Text} (mark : quote = '\'' ∨ quote = '"')
      (closed : Text.closesAtEnd quote body = true) (further : Respaced gap depth s t) :
      Respaced gap depth (quote :: (body ++ s)) (quote :: (body ++ t))

variable {gap : Gap} {depth : Nat} {s t : Text}

theorem Respaced.swap (respaced : Respaced gap depth s t) : Respaced gap.swap depth t s := by
  induction respaced with
  | same depth s => exact .same depth s
  | differs inside => exact @Respaced.differs gap.swap _ inside
  | code bare _ ih => exact .code bare ih
  | quoted mark closed _ ih => exact .quoted mark closed ih

/-- The two texts with a gap at a place within brackets, as seen from a place before it. -/
def RespacedFrom (gap : Gap) (before : Text) : Place → Prop
  | .code depth => Respaced gap depth (before ++ (gap.space ++ gap.behind))
      (before ++ (gap.other ++ gap.behind))
  | .quoted depth quote => ∃ body more, before = body ++ more ∧
      Text.closesAtEnd quote body = true ∧
      Respaced gap depth (more ++ (gap.space ++ gap.behind)) (more ++ (gap.other ++ gap.behind))
  | .escaped depth quote => ∃ c body more, before = c :: (body ++ more) ∧
      Text.closesAtEnd quote body = true ∧
      Respaced gap depth (more ++ (gap.space ++ gap.behind)) (more ++ (gap.other ++ gap.behind))

theorem closesAtEnd_cons {quote c : Char} (noEscape : c ≠ '\\') (s : Text) :
    Text.closesAtEnd quote (c :: s) =
      if c = quote then s.isEmpty else Text.closesAtEnd quote s := by
  rw [Text.closesAtEnd]
  intro _ _ same _
  exact noEscape same

theorem respacedFrom_of_place (before : Text) (place : Place) {inner : Nat}
    (ends : before.foldl Place.next place = .code (inner + 1)) : RespacedFrom gap before place := by
  -- character by character: a place within quotes tells what of the string is still to come
  induction before generalizing place with
  | nil =>
      cases ends
      exact .differs (Nat.succ_pos inner)
  | cons c before ih =>
      have later := ih (place.next c) ends
      cases place with
      | code depth =>
          rw [Place.next] at later
          split at later
          · next mark =>
              obtain ⟨body, more, rfl, closed, further⟩ := later
              simpa [RespacedFrom] using Respaced.quoted mark closed further
          · next bare => exact .code bare later
      | quoted depth quote =>
          rw [Place.next] at later
          split at later
          · next escape =>
              obtain ⟨e, body, more, rfl, closed, further⟩ := later
              subst escape
              exact ⟨'\\' :: e :: body, more, rfl, closed, further⟩
          · next noEscape =>
              split at later
              · next same =>
                  refine ⟨[c], before, rfl, ?_, later⟩
                  rw [closesAtEnd_cons noEscape, if_pos same]
                  rfl
              · next other =>
                  obtain ⟨body, more, rfl, closed, further⟩ := later
                  refine ⟨c :: body, more, rfl, ?_, further⟩
                  rw [closesAtEnd_cons noEscape, if_neg other]
                  exact closed
      | escaped depth quote =>
          obtain ⟨body, more, rfl, closed, further⟩ := later
          exact ⟨c, body, more, rfl, closed, further⟩

theorem respaced_of_placeBehind (gap : Gap) {before : Text} {inner : Nat}
    (inside : placeBehind before = .code (inner + 1)) :
    Respaced gap 0 (before ++ (gap.space ++ gap.behind)) (before ++ (gap.other ++ gap.behind)) :=
  respacedFrom_of_place before (.code 0) inside

/-- Where the gap is behind what is left, nothing differs. -/
theorem Respaced.eq_of_suffix (respaced : Respaced gap depth s t)
    (behind : s <:+ gap.behind) : s = t := by
  have long : s = t ∨ gap.behind.length < s.length := by
    clear behind
    induction respaced with
    | same depth s => exact Or.inl rfl
    | differs inside =>
        have some := List.length_pos_iff.mpr gap.blankSpace.some
        rw [List.length_append]
        omega
    | code bare _ ih =>
        rcases ih with rfl | long
        · exact Or.inl rfl
        · rw [List.length_cons]
          omega
    | quoted mark closed _ ih =>
        rcases ih with rfl | long
        · exact Or.inl rfl
        · rw [List.length_cons, List.length_append]
          omega
  exact long.resolve_right (Nat.not_lt.mpr behind.length_le)

/-- A character that no white space within ASCII can stand for, and that is no quote. -/
def isVisible (c : Char) : Bool := !(isAscii c && isBlank c) && c != '\'' && c != '"'

def isPlain (c : Char) : Bool :=
  isVisible c && c != '(' && c != '<' && c != '\x7b' && c != ')' && c != '>' && c != '\x7d'

theorem depthBehind_plain {c : Char} (plain : isPlain c = true) (depth : Nat) :
    depthBehind depth c = depth := by
  simp only [isPlain, Bool.and_eq_true, bne_iff_ne] at plain
  simp [depthBehind, plain]

theorem Blanks.head {w : Text} (blanks : Blanks w) :
    ∃ c more, w = c :: more ∧ isBlank c = true ∧ isVisible c = false := by
  obtain ⟨c, more, rfl⟩ := List.exists_cons_of_ne_nil blanks.some
  refine ⟨c, more, rfl, blanks.blank c List.mem_cons_self, ?_⟩
  simp [isVisible, blanks.blank c List.mem_cons_self, blanks.ascii c List.mem_cons_self]

/-- A character in front of one text stands in front of the other one. -/
theorem Respaced.cons {c : Char} (respaced : Respaced gap depth (c :: s) t)
    (visible : isVisible c = true) :
    ∃ rest, t = c :: rest ∧ Respaced gap (depthBehind depth c) s rest := by
  generalize whole : c :: s = front at respaced
  cases respaced with
  | same => exact ⟨s, whole.symm, .same _ s⟩
  | differs inside =>
      obtain ⟨d, more, shape, -, hidden⟩ := gap.blankSpace.head
      rw [shape] at whole
      obtain rfl := (List.cons.inj whole).1
      rw [visible] at hidden
      cases hidden
  | code bare further =>
      obtain ⟨rfl, rfl⟩ := List.cons.inj whole
      exact ⟨_, rfl, further⟩
  | quoted mark closed further =>
      obtain ⟨rfl, -⟩ := List.cons.inj whole
      rcases mark with rfl | rfl <;> cases visible

theorem isVisible_of_isPlain {c : Char} (plain : isPlain c = true) : isVisible c = true := by
  simp only [isPlain, Bool.and_eq_true] at plain
  simp only [plain]

theorem Respaced.plain {c : Char} (respaced : Respaced gap depth (c :: s) t)
    (plain : isPlain c = true) : ∃ rest, t = c :: rest ∧ Respaced gap depth s rest := by
  obtain ⟨rest, rfl, further⟩ := respaced.cons (isVisible_of_isPlain plain)
  rw [depthBehind_plain plain] at further
  exact ⟨rest, rfl, further⟩

/-- A word in front of one text stands in front of the other one. -/
theorem Respaced.word (word : Text) (respaced : Respaced gap depth (word ++ s) t)
    (plain : word.all isPlain = true) :
    ∃ rest, t = word ++ rest ∧ Respaced gap depth s rest := by
  induction word generalizing t with
  | nil => exact ⟨t, rfl, respaced⟩
  | cons c word ih =>
      obtain ⟨here, later⟩ := Bool.and_eq_true_iff.mp (List.all_cons ▸ plain)
      obtain ⟨rest, rfl, further⟩ := respaced.plain here
      obtain ⟨behind, rfl, last⟩ := ih further later
      exact ⟨behind, rfl, last⟩

/-- No word comes first in one text that does not in the other one. -/
theorem Respaced.no_word (word : Text) (respaced : Respaced gap depth s t)
    (plain : word.all isPlain = true) (stop : ∀ rest, s ≠ word ++ rest) (rest : Text) :
    t ≠ word ++ rest := by
  rintro rfl
  obtain ⟨behind, same, -⟩ := respaced.swap.word word plain
  exact stop behind same

theorem Respaced.no_mark {c : Char} (respaced : Respaced gap depth s t)
    (visible : isVisible c = true) (stop : ∀ rest, s ≠ c :: rest) (rest : Text) :
    t ≠ c :: rest := by
  rintro rfl
  obtain ⟨behind, same, -⟩ := respaced.swap.cons visible
  exact stop behind same

theorem Respaced.nil (respaced : Respaced gap depth [] t) : t = [] := by
  generalize whole : [] = front at respaced
  cases respaced with
  | same => rfl
  | differs inside => exact absurd (List.append_eq_nil_iff.mp whole.symm).1 gap.blankSpace.some
  | code | quoted => cases whole

theorem depthBehind_blank {c : Char} (blank : isBlank c = true) (depth : Nat) :
    depthBehind depth c = depth := by
  unfold depthBehind
  split
  · next opening => rcases opening with rfl | rfl | rfl <;> cases blank
  · split
    · next closing => rcases closing with rfl | rfl | rfl <;> cases blank
    · rfl

theorem dropWhile_blanks {w : Text} (blanks : Blanks w) (class? : Char → Bool)
    (wide : ∀ c, isBlank c = true → class? c = true) (rest : Text) :
    (w ++ rest).dropWhile class? = rest.dropWhile class? :=
  List.dropWhile_append_of_pos fun c found => wide c (blanks.blank c found)

/-- White space is passed over on both sides, if within brackets all of it is. -/
theorem Respaced.skip (respaced : Respaced gap depth s t) (class? : Char → Bool)
    (narrow : ∀ c, class? c = true → isBlank c = true)
    (wide : 0 < depth → ∀ c, isBlank c = true → class? c = true) :
    Respaced gap depth (s.dropWhile class?) (t.dropWhile class?) := by
  induction respaced with
  | same depth s => exact .same depth _
  | differs inside =>
      rw [dropWhile_blanks gap.blankSpace class? (wide inside),
        dropWhile_blanks gap.blankOther class? (wide inside)]
      exact .same _ _
  | @code depth c s t bare further ih =>
      by_cases blank : class? c = true
      · rw [depthBehind_blank (narrow c blank)] at ih
        rw [List.dropWhile_cons_of_pos blank, List.dropWhile_cons_of_pos blank]
        exact ih wide
      · rw [List.dropWhile_cons_of_neg blank, List.dropWhile_cons_of_neg blank]
        exact .code bare further
  | @quoted depth quote body s t mark closed further ih =>
      have visible : ¬ class? quote = true := by
        intro blank
        have blank := narrow quote blank
        rcases mark with rfl | rfl <;> cases blank
      rw [List.dropWhile_cons_of_neg visible, List.dropWhile_cons_of_neg visible]
      exact .quoted mark closed further

theorem Respaced.trimStart (respaced : Respaced gap depth s t) :
    Respaced gap depth s.trimStart t.trimStart :=
  respaced.skip isBlank (fun _ blank => blank) fun _ _ blank => blank

theorem Respaced.separators (respaced : Respaced gap depth s t) :
    Respaced gap depth (behindSeparators depth s) (behindSeparators depth t) := by
  by_cases inside : 0 < depth
  · simp only [behindSeparators, Cursor.skipSeparators, inside, ↓reduceIte]
    exact respaced.trimStart
  · simp only [behindSeparators, Cursor.skipSeparators, inside, ↓reduceIte]
    exact respaced.skip isSpaceOrTab (fun _ => isBlank_of_isSpaceOrTab)
      fun deeper => absurd deeper inside

/-- Within brackets there is white space in front of both texts or of none. -/
theorem Respaced.head_blank (respaced : Respaced gap depth s t) :
    s.head?.any isBlank = t.head?.any isBlank := by
  cases respaced with
  | same => rfl
  | differs inside =>
      obtain ⟨c, more, shape, blank, -⟩ := gap.blankSpace.head
      obtain ⟨d, rest, shape', blank', -⟩ := gap.blankOther.head
      simp [shape, shape', blank, blank']
  | code | quoted => rfl

theorem Respaced.startsVariable (respaced : Respaced gap depth s t) :
    startsVariable s = startsVariable t := by
  cases respaced with
  | same => rfl
  | differs inside =>
      have noMark : ∀ {w : Text}, Blanks w → DocType.startsVariable (w ++ gap.behind) = false := by
        intro w blanks
        obtain ⟨c, more, rfl, blank, -⟩ := blanks.head
        by_contra mark
        simp only [List.cons_append, DocType.startsVariable, Bool.or_eq_true, beq_iff_eq,
          Bool.not_eq_false] at mark
        rcases mark with rfl | rfl <;> cases blank
      rw [noMark gap.blankSpace, noMark gap.blankOther]
  | code | quoted => rfl

/-- What the words of a type are made of. -/
theorem isPlain_word {c : Char}
    (word : isNameStart c = true ∨ isNameChar c = true ∨ isNumberChar c = true ∨
      isConstantChar c = true) : isPlain c = true := by
  have visible : (isAscii c && isBlank c) = false := by
    cases ascii : isAscii c with
    | false => rfl
    | true => exact word_visible c word ascii
  by_contra mark
  simp only [isPlain, isVisible, visible, Bool.not_false, Bool.true_and, Bool.and_eq_true,
    bne_iff_ne, not_and_or, not_not] at mark
  rcases mark with ((((((mark | mark) | mark) | mark) | mark) | mark) | mark) | mark <;>
    (subst mark; revert word; decide)

theorem isPlain_of_isNameStart (c : Char) (start : isNameStart c = true) : isPlain c = true :=
  isPlain_word (Or.inl start)

theorem isPlain_of_isNameChar (c : Char) (word : isNameChar c = true) : isPlain c = true :=
  isPlain_word (Or.inr (Or.inl word))

theorem isPlain_of_isNumberChar (c : Char) (word : isNumberChar c = true) : isPlain c = true :=
  isPlain_word (Or.inr (Or.inr (Or.inl word)))

theorem isPlain_of_isConstantChar (c : Char) (word : isConstantChar c = true) : isPlain c = true :=
  isPlain_word (Or.inr (Or.inr (Or.inr word)))

theorem isPlain_of_isDigit (c : Char) (digit : c.isDigit = true) : isPlain c = true :=
  isPlain_of_isNumberChar c (by simp [isNumberChar, Char.isAlphanum, digit])

/-- The characters of a class are taken off both texts. -/
theorem Respaced.takeWhile (class? : Char → Bool) (respaced : Respaced gap depth s t)
    (plain : ∀ c, class? c = true → isPlain c = true) :
    t.takeWhile class? = s.takeWhile class? ∧
      Respaced gap depth (s.dropWhile class?) (t.dropWhile class?) := by
  induction respaced with
  | same depth s => exact ⟨rfl, .same depth _⟩
  | differs inside =>
      -- a word ends where the gap begins, on both sides
      have stays : ∀ {w : Text}, Blanks w → StopsAt class? (w ++ gap.behind) := by
        intro w blanks
        obtain ⟨c, more, rfl, -, hidden⟩ := blanks.head
        rw [List.cons_append, stopsAt_cons]
        by_contra word
        have visible := plain c (by simpa using word)
        simp [isPlain, hidden] at visible
      have whole := fun {w : Text} (blanks : Blanks w) => takeWhile_word class? [] (w ++ gap.behind)
        (by simp) (stays blanks)
      simp only [List.nil_append] at whole
      rw [whole gap.blankSpace, whole gap.blankOther,
        dropWhile_of_stopsAt _ _ (stays gap.blankSpace),
        dropWhile_of_stopsAt _ _ (stays gap.blankOther)]
      exact ⟨rfl, .differs inside⟩
  | @code depth c s t bare further ih =>
      by_cases word : class? c = true
      · rw [depthBehind_plain (plain c word)] at ih
        rw [List.takeWhile_cons_of_pos word, List.takeWhile_cons_of_pos word,
          List.dropWhile_cons_of_pos word, List.dropWhile_cons_of_pos word, ih.1]
        exact ⟨rfl, ih.2⟩
      · rw [List.takeWhile_cons_of_neg word, List.takeWhile_cons_of_neg word,
          List.dropWhile_cons_of_neg word, List.dropWhile_cons_of_neg word]
        exact ⟨rfl, .code bare further⟩
  | @quoted depth quote body s t mark closed further ih =>
      have word : ¬ class? quote = true := by
        intro word
        have visible := plain quote word
        rcases mark with rfl | rfl <;> cases visible
      rw [List.takeWhile_cons_of_neg word, List.takeWhile_cons_of_neg word,
        List.dropWhile_cons_of_neg word, List.dropWhile_cons_of_neg word]
      exact ⟨rfl, .quoted mark closed further⟩

theorem Respaced.stopsAt {class? : Char → Bool} (respaced : Respaced gap depth s t)
    (plain : ∀ c, class? c = true → isPlain c = true) (stop : StopsAt class? s) :
    StopsAt class? t := by
  intro c found
  by_contra word
  have visible := isVisible_of_isPlain (plain c (by simpa using word))
  obtain ⟨rest, rfl⟩ := List.head?_eq_some_iff.mp found
  obtain ⟨behind, rfl, -⟩ := respaced.swap.cons visible
  exact word (stop c rfl)

theorem readName_of_stopsAt (stop : StopsAt isNameStart s) : readName s = ([], s) := by
  cases s with
  | nil => rfl
  | cons c s =>
      have other := (stopsAt_cons isNameStart c s).mp stop
      simp [DocType.readName, other]

theorem Respaced.readName (respaced : Respaced gap depth s t) :
    (readName t).1 = (readName s).1 ∧
      Respaced gap depth (readName s).2 (readName t).2 := by
  by_cases stop : StopsAt isNameStart s
  · rw [readName_of_stopsAt stop, readName_of_stopsAt
      (respaced.stopsAt isPlain_of_isNameStart stop)]
    exact ⟨rfl, respaced⟩
  · cases s with
    | nil => exact absurd (stopsAt_nil isNameStart) stop
    | cons c s =>
        have start : isNameStart c = true := by simpa using stop
        obtain ⟨rest, rfl, further⟩ := respaced.plain (isPlain_of_isNameStart c start)
        obtain ⟨same, behind⟩ := further.takeWhile isNameChar isPlain_of_isNameChar
        simp only [DocType.readName, start, ↓reduceIte, same]
        exact ⟨trivial, behind⟩

theorem Respaced.readNumber (respaced : Respaced gap depth s t) :
    (readNumber t).1 = (readNumber s).1 ∧
      Respaced gap depth (readNumber s).2 (readNumber t).2 := by
  have digits : ∀ {s t : Text}, Respaced gap depth s t →
      t.takeWhile isNumberChar = s.takeWhile isNumberChar ∧
        Respaced gap depth (s.dropWhile isNumberChar) (t.dropWhile isNumberChar) :=
    fun respaced => respaced.takeWhile isNumberChar isPlain_of_isNumberChar
  by_cases signed : ∃ more, s = '-' :: more
  · obtain ⟨more, rfl⟩ := signed
    obtain ⟨rest, rfl, further⟩ := respaced.plain (show isPlain '-' = true by decide)
    exact ⟨congrArg ('-' :: ·) (digits further).1, (digits further).2⟩
  · have unsigned : ∀ {s : Text}, (∀ more, s ≠ '-' :: more) →
        DocType.readNumber s = (s.takeWhile isNumberChar, s.dropWhile isNumberChar) := by
      intro s other
      unfold DocType.readNumber
      split
      · exact absurd rfl (other _)
      · rfl
    have stop : ∀ more, s ≠ '-' :: more := fun more same => signed ⟨more, same⟩
    rw [unsigned stop, unsigned (respaced.no_mark (by decide) stop)]
    exact digits respaced

theorem Respaced.startsNumber (respaced : Respaced gap depth s t)
    (starts : startsNumber s = true) : startsNumber t = true := by
  unfold DocType.startsNumber at starts
  split at starts
  · next c more =>
      obtain ⟨rest, rfl, further⟩ := respaced.plain (show isPlain '-' = true by decide)
      obtain ⟨behind, rfl, -⟩ := further.plain (isPlain_of_isDigit c starts)
      exact starts
  · next c more signed =>
      obtain ⟨rest, rfl, -⟩ := respaced.plain (isPlain_of_isDigit c starts)
      have unsigned : c ≠ '-' := by
        rintro rfl
        cases starts
      unfold DocType.startsNumber
      split
      · next same => exact absurd (List.cons.inj same).1 unsigned
      · next same =>
          obtain rfl := (List.cons.inj same).1
          exact starts
      · next same => cases same
  · cases starts

/-- The same string in quotes is read of both texts. -/
theorem Respaced.readQuoted {quote : Char} {body rest : Text}
    (respaced : Respaced gap depth (quote :: s) t) (mark : quote = '\'' ∨ quote = '"')
    (read : Text.readQuoted quote s = some (body, rest)) :
    ∃ more behind, t = quote :: more ∧ Text.readQuoted quote more = some (body, behind) ∧
      Respaced gap depth rest behind := by
  generalize whole : quote :: s = front at respaced
  cases respaced with
  | same => exact ⟨s, rest, whole.symm, read, .same _ _⟩
  | differs inside =>
      obtain ⟨c, more, shape, blank, -⟩ := gap.blankSpace.head
      rw [shape] at whole
      obtain rfl := (List.cons.inj whole).1
      rcases mark with rfl | rfl <;> cases blank
  | code bare further =>
      obtain ⟨rfl, -⟩ := List.cons.inj whole
      exact absurd mark bare
  | @quoted _ _ inner front behind mark' closed further =>
      obtain ⟨rfl, rfl⟩ := List.cons.inj whole
      have noEscape : quote ≠ '\\' := by rcases mark with rfl | rfl <;> decide
      rw [Text.readQuoted_append quote inner front closed noEscape] at read
      cases read
      exact ⟨_, behind, rfl, Text.readQuoted_append quote _ behind closed noEscape, further⟩

theorem Respaced.readKey {key rest : Text} (respaced : Respaced gap depth s t)
    (read : readKey s = some (key, rest)) :
    ∃ behind, readKey t = some (key, behind) ∧ Respaced gap depth rest behind := by
  cases s with
  | nil => cases read
  | cons c s =>
      simp only [DocType.readKey] at read
      split at read
      · next mark =>
          obtain ⟨⟨body, tail⟩, found, same⟩ := Option.map_eq_some_iff.mp read
          cases same
          obtain ⟨more, behind, rfl, again, further⟩ := respaced.readQuoted mark found
          refine ⟨behind, ?_, further⟩
          simp only [DocType.readKey, mark, ↓reduceIte, again, Option.map_some]
      · next noMark =>
          split at read
          · next digit =>
              obtain ⟨more, rfl, -⟩ := respaced.plain (isPlain_of_isDigit c digit)
              obtain ⟨same, further⟩ := respaced.readNumber
              rw [Option.some.inj read] at same further
              refine ⟨_, ?_, further⟩
              simp only [DocType.readKey, noMark, digit, ↓reduceIte]
              exact congrArg some (Prod.ext same rfl)
          · next noDigit =>
              split at read
              · next start =>
                  obtain ⟨more, rfl, -⟩ := respaced.plain (isPlain_of_isNameStart c start)
                  obtain ⟨same, further⟩ := respaced.readName
                  rw [Option.some.inj read] at same further
                  refine ⟨_, ?_, further⟩
                  simp only [DocType.readKey, noMark, noDigit, start, ↓reduceIte,
                    Bool.false_eq_true]
                  exact congrArg some (Prod.ext same rfl)
              · cases read

theorem Respaced.readKeyed {key rest : Text} {isOptional : Bool}
    (respaced : Respaced gap depth s t) (read : readKeyed s = some (key, isOptional, rest)) :
    ∃ behind, readKeyed t = some (key, isOptional, behind) ∧ Respaced gap depth rest behind := by
  unfold DocType.readKeyed at read
  split at read
  · cases read
  · next word behind found =>
      obtain ⟨after, again, further⟩ := respaced.readKey found
      replace further := further.trimStart
      split at read
      · next more mark =>
          rw [mark] at further
          obtain ⟨front, marked, further⟩ := further.plain (by decide)
          replace further := further.trimStart
          split at read
          · next last colon =>
              cases read
              rw [colon] at further
              obtain ⟨final, ended, further⟩ := further.plain (by decide)
              refine ⟨final, ?_, further⟩
              simp only [DocType.readKeyed, again, marked, ended]
          · cases read
      · next more colon =>
          cases read
          rw [colon] at further
          obtain ⟨final, ended, further⟩ := further.plain (by decide)
          refine ⟨final, ?_, further⟩
          simp only [DocType.readKeyed, again, ended]
      · cases read

theorem Respaced.no_key (respaced : Respaced gap depth s t) (noKey : DocType.readKeyed s = none) :
    DocType.readKeyed t = none := by
  by_contra found
  obtain ⟨⟨key, isOptional, rest⟩, found⟩ := Option.ne_none_iff_exists'.mp found
  obtain ⟨behind, again, -⟩ := respaced.swap.readKeyed found
  rw [noKey] at again
  cases again

theorem Respaced.dropOptional (word : Text) (respaced : Respaced gap depth s t)
    (plain : word.all isPlain = true) :
    Respaced gap depth (s.dropOptional word) (t.dropOptional word) := by
  unfold Text.dropOptional
  cases found : Text.after? word s with
  | some rest =>
      obtain rfl := Text.eq_append_of_after? found
      obtain ⟨behind, rfl, further⟩ := respaced.word word plain
      rw [Text.after?_append]
      exact further
  | none =>
      cases other : Text.after? word t with
      | none => exact respaced
      | some rest =>
          obtain rfl := Text.eq_append_of_after? other
          obtain ⟨behind, rfl, -⟩ := respaced.swap.word word plain
          rw [Text.after?_append] at found
          cases found

theorem Respaced.skipVariable (respaced : Respaced gap depth s t) :
    Respaced gap depth (skipVariable s) (skipVariable t) := by
  by_cases variable' : ∃ more, s = '$' :: more
  · obtain ⟨more, rfl⟩ := variable'
    obtain ⟨rest, rfl, further⟩ := respaced.plain (show isPlain '$' = true by decide)
    exact (further.takeWhile isNameChar isPlain_of_isNameChar).2
  · have stop : ∀ more, s ≠ '$' :: more := fun more same => variable' ⟨more, same⟩
    have stays : ∀ {s : Text}, (∀ more, s ≠ '$' :: more) → DocType.skipVariable s = s := by
      intro s other
      unfold DocType.skipVariable
      split
      · exact absurd rfl (other _)
      · rfl
    rw [stays stop, stays (respaced.no_mark (by decide) stop)]
    exact respaced

theorem Respaced.behindParameter (respaced : Respaced gap depth s t) :
    Respaced gap depth (behindParameter s) (behindParameter t) := by
  have byReference := respaced.trimStart.dropOptional ['&'] (by decide)
  have variadic := byReference.dropOptional ['.', '.', '.'] (by decide)
  exact variadic.skipVariable.trimStart.dropOptional ['='] (by decide)

theorem Respaced.behindNot (respaced : Respaced gap depth s t) :
    Respaced gap depth (behindNot s) (behindNot t) := by
  obtain ⟨same, further⟩ := respaced.readName
  unfold DocType.behindNot
  rw [same]
  split
  · exact further
  · exact respaced

theorem Respaced.behindVariance (respaced : Respaced gap depth s t) :
    Respaced gap depth (behindVariance s) (behindVariance t) := by
  obtain ⟨same, further⟩ := respaced.readName
  unfold DocType.behindVariance
  rw [same, further.head_blank]
  split
  · exact further.trimStart
  · exact respaced

theorem Respaced.atomStart {here : Cursor} (respaced : Respaced gap here.depth here.rest t) :
    Respaced gap here.depth (atomStart here) (atomStart ⟨t, here.depth⟩) := by
  unfold DocType.atomStart
  split
  · exact respaced.trimStart
  · exact respaced

theorem Respaced.wrapArrays (type : DocType) (respaced : Respaced gap depth s t) :
    (wrapArrays type t).1 = (wrapArrays type s).1 ∧
      Respaced gap depth (wrapArrays type s).2 (wrapArrays type t).2 := by
  have brackets : ['[', ']'].all isPlain = true := by decide
  fun_induction DocType.wrapArrays type s generalizing t with
  | case1 type rest ih =>
      obtain ⟨behind, rfl, further⟩ := respaced.word ['[', ']'] brackets
      exact ih further
  | case2 type rest other =>
      have stop : ∀ behind, t ≠ ['[', ']'] ++ behind := respaced.no_word ['[', ']'] brackets other
      unfold DocType.wrapArrays
      split
      · exact absurd rfl (stop _)
      · exact ⟨rfl, respaced⟩

theorem Respaced.expect {wanted : Char} {here there : Cursor}
    (respaced : Respaced gap here.depth here.rest t) (visible : isVisible wanted = true)
    (read : expect wanted here = .ok there) :
    ∃ rest, DocType.expect wanted ⟨t, here.depth⟩ = .ok ⟨rest, there.depth⟩ ∧
      Respaced gap (depthBehind there.depth wanted) there.rest rest := by
  obtain ⟨mark, same⟩ := expect_ok_iff.mp read
  have further := respaced.trimStart
  rw [mark] at further
  obtain ⟨rest, found, behind⟩ := further.cons visible
  rw [same]
  exact ⟨rest, expect_ok_iff.mpr ⟨found, rfl⟩, behind⟩

end DocSig.DocType
