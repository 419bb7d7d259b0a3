import DocSig.Proofs.DocType.Progress
import DocSig.Proofs.DocType.Shape

/-!
What the cuts of a text give when something else follows it.

A text is `p ++ u` here, and `v` is what stands in the place of `u` another time. A cut that leaves
`k ++ u` of the one leaves `k ++ v` of the other, provided that something was left before `u`, or
that `v` ends a word as well as `u` did.
-/

set_option autoImplicit false

namespace DocSig.DocType

variable {p q k u v : Text}

theorem eq_append_of_suffix {s : Text} (left : q ++ u <:+ s) : ∃ k, s = k ++ u ∧ q <:+ k := by
  obtain ⟨front, rfl⟩ := left
  exact ⟨front ++ q, (List.append_assoc front q u).symm, List.suffix_append front q⟩

theorem suffix_of_eq {s : Text} (same : s = q) : q <:+ s := same ▸ List.suffix_refl s

theorem suffix_of_append (left : q ++ u <:+ p ++ u) : q <:+ p := by
  obtain ⟨front, same⟩ := left
  rw [← List.append_assoc] at same
  exact ⟨front, List.append_cancel_right same⟩

theorem ne_nil_of_suffix (left : q <:+ k) (some : q ≠ []) : k ≠ [] := by
  rintro rfl
  exact some (List.suffix_nil.mp left)

/-- A character that is not of a class is not cut off with a word of the class. -/
theorem suffix_dropWhile {class? : Char → Bool} {c : Char} {more s : Text}
    (stop : class? c = false) (within : c :: more <:+ s) : c :: more <:+ s.dropWhile class? := by
  obtain ⟨front, rfl⟩ := within
  rw [List.dropWhile_append]
  split
  · exact suffix_of_eq (List.dropWhile_cons_of_neg (by simp [stop]))
  · exact List.suffix_append _ _

theorem suffix_of_cons_ne {c d : Char} {more s : Text} (other : c ≠ d)
    (within : c :: more <:+ d :: s) : c :: more <:+ s := by
  rcases List.suffix_cons_iff.mp within with same | later
  · exact absurd (List.cons.inj same).1 other
  · exact later

/-- A cut that leaves `u`: the word before it is the same, whatever comes in the place of `u`. -/
theorem word_of_cut {class? : Char → Bool} (cut : (p ++ u).dropWhile class? = k ++ u) :
    ∃ word, p = word ++ k ∧ (p ++ u).takeWhile class? = word ∧
      (∀ c ∈ word, class? c = true) ∧ StopsAt class? (k ++ u) := by
  refine ⟨(p ++ u).takeWhile class?, ?_, rfl, List.all_eq_true.mp List.all_takeWhile,
    cut ▸ stopsAt_dropWhile class? (p ++ u)⟩
  have whole := List.takeWhile_append_dropWhile (p := class?) (l := p ++ u)
  rw [cut, ← List.append_assoc] at whole
  exact (List.append_cancel_right whole).symm

theorem dropWhile_swap {class? : Char → Bool} (cut : (p ++ u).dropWhile class? = k ++ u)
    (stop : k = [] → StopsAt class? v) :
    (p ++ v).dropWhile class? = k ++ v ∧ (p ++ v).takeWhile class? = (p ++ u).takeWhile class? := by
  obtain ⟨word, rfl, taken, all, ends⟩ := word_of_cut cut
  have endsToo : StopsAt class? (k ++ v) := by
    cases k with
    | nil => exact stop rfl
    | cons c more => simpa using ends
  rw [taken, List.append_assoc]
  exact ⟨dropWhile_word class? word (k ++ v) all endsToo,
    takeWhile_word class? word (k ++ v) all endsToo⟩

theorem trimStart_swap (cut : (p ++ u).trimStart = k ++ u) (some : k ≠ []) :
    (p ++ v).trimStart = k ++ v :=
  (dropWhile_swap cut fun empty => absurd empty some).1

/-- White space before what is to come ends where something visible begins. -/
theorem trimStart_reach (left : q ++ u <:+ (p ++ u).trimStart) (full : q ≠ []) (v : Text) :
    ∃ n, (p ++ u).trimStart = n ++ u ∧ (p ++ v).trimStart = n ++ v ∧ q <:+ n ∧ n <:+ p := by
  obtain ⟨n, seen, behind⟩ := eq_append_of_suffix left
  refine ⟨n, seen, trimStart_swap seen (ne_nil_of_suffix behind full), behind, ?_⟩
  exact suffix_of_append (seen ▸ trimStart_suffix (p ++ u))

theorem suffix_append_right (within : q <:+ p) (u : Text) : q ++ u <:+ p ++ u := by
  obtain ⟨front, rfl⟩ := within
  exact ⟨front, (List.append_assoc front q u).symm⟩

theorem trimStart_anchor {c : Char} {more : Text} (visible : isBlank c = false)
    (within : c :: more <:+ p) (u v : Text) :
    ∃ n, (p ++ u).trimStart = n ++ u ∧ (p ++ v).trimStart = n ++ v ∧ c :: more <:+ n ∧ n <:+ p :=
  trimStart_reach (q := c :: more) (suffix_dropWhile visible (suffix_append_right within u))
    (List.cons_ne_nil c more) v

theorem trimStart_of_append (cut : (p ++ u).trimStart = k ++ u) (some : k ≠ []) :
    p.trimStart = k := by
  have bare := trimStart_swap (v := []) cut some
  simpa using bare

/-- A text that may follow a type: it is empty or begins with white space of ASCII. -/
def Harmless (v : Text) : Prop := ∀ c ∈ v.head?, isAsciiBlank c = true

def isCloser (c : Char) : Bool := c == ',' || c == '>' || c == '\x7d' || c == ')'

theorem isCloser_cases {c : Char} (closer : isCloser c = true) :
    c = ',' ∨ c = '>' ∨ c = '\x7d' ∨ c = ')' := by
  simpa [isCloser, or_assoc] using closer

theorem asciiBlank_cases {c : Char} (blank : isAsciiBlank c = true) :
    c = ' ' ∨ c = '\t' ∨ c = '\n' ∨ c = '\x0c' ∨ c = '\r' := by
  simpa [isAsciiBlank, or_assoc] using blank

/-- A character that is part of no word or mark of a union's member: white space of ASCII, what
closes an item, or the mark between two members. -/
def isBreak (c : Char) : Bool := isAsciiBlank c || isCloser c || c == '|'

theorem isBreak_cases {c : Char} (ends : isBreak c = true) :
    ((c = ' ' ∨ c = '\t' ∨ c = '\n' ∨ c = '\x0c' ∨ c = '\r') ∨
      c = ',' ∨ c = '>' ∨ c = '\x7d' ∨ c = ')') ∨ c = '|' := by
  rw [isBreak, Bool.or_eq_true, Bool.or_eq_true, beq_iff_eq] at ends
  exact ends.imp_left fun other => other.imp asciiBlank_cases isCloser_cases

/-- A text that goes on with no word or mark of a union's member before it. -/
def Apart (v : Text) : Prop := ∀ c ∈ v.head?, isBreak c = true

theorem Harmless.apart (harmless : Harmless v) : Apart v :=
  fun c found => by rw [isBreak, harmless c found, Bool.true_or, Bool.true_or]

theorem Apart.stopsAt (apart : Apart v) {class? : Char → Bool}
    (outside : ∀ c, isBreak c = true → class? c = false) : StopsAt class? v :=
  fun c found => outside c (apart c found)

theorem Apart.name (apart : Apart v) : StopsAt isNameChar v :=
  apart.stopsAt fun c ends => by
    rcases isBreak_cases ends with
      ((rfl | rfl | rfl | rfl | rfl) | rfl | rfl | rfl | rfl) | rfl <;> decide

theorem Apart.number (apart : Apart v) : StopsAt isNumberChar v :=
  apart.stopsAt fun c ends => by
    rcases isBreak_cases ends with
      ((rfl | rfl | rfl | rfl | rfl) | rfl | rfl | rfl | rfl) | rfl <;> decide

theorem Apart.constant (apart : Apart v) : StopsAt isConstantChar v :=
  apart.stopsAt fun c ends => by
    rcases isBreak_cases ends with
      ((rfl | rfl | rfl | rfl | rfl) | rfl | rfl | rfl | rfl) | rfl <;> decide

/-- A mark that begins no such text. -/
theorem Apart.head_ne (apart : Apart v) {c : Char} {more : Text} (mark : isBreak c = false) :
    v ≠ c :: more := by
  rintro rfl
  have ends := apart c rfl
  rw [mark] at ends
  cases ends

theorem readName_swap {name : Text} (read : readName (p ++ u) = (name, k ++ u)) (some : p ≠ [])
    (stop : k = [] → StopsAt isNameChar v) : readName (p ++ v) = (name, k ++ v) := by
  cases p with
  | nil => exact absurd rfl some
  | cons c more =>
      simp only [List.cons_append, readName] at read ⊢
      split at read
      · next start =>
          have cut : (more ++ u).dropWhile isNameChar = k ++ u := (Prod.mk.inj read).2
          obtain ⟨left, taken⟩ := dropWhile_swap cut stop
          rw [if_pos start, left, taken, ← (Prod.mk.inj read).1]
      · next other =>
          obtain ⟨rfl, same⟩ := Prod.mk.inj read
          have same : c :: more = k := List.append_cancel_right same
          rw [if_neg other, ← same]
          rfl

/-- A name ends before a character that stands in no name. -/
theorem suffix_readName {c : Char} {more s : Text} (start : isNameStart c = false)
    (later : isNameChar c = false) (within : c :: more <:+ s) : c :: more <:+ (readName s).2 := by
  cases s with
  | nil => exact within
  | cons d s =>
      rw [readName]
      split
      · next name =>
          have other : c ≠ d := by
            rintro rfl
            rw [start] at name
            cases name
          exact suffix_dropWhile later (suffix_of_cons_ne other within)
      · exact within

/-- A name that ends before such a character is the same, whatever follows that. -/
theorem readName_anchor {c : Char} {more : Text} (start : isNameStart c = false)
    (later : isNameChar c = false) (within : c :: more <:+ p) (u v : Text) :
    ∃ name k, readName (p ++ u) = (name, k ++ u) ∧ readName (p ++ v) = (name, k ++ v) ∧
      c :: more <:+ k ∧ k <:+ p := by
  obtain ⟨k, left, behind⟩ := eq_append_of_suffix (q := c :: more)
    (suffix_readName start later (suffix_append_right within u))
  have read : readName (p ++ u) = ((readName (p ++ u)).1, k ++ u) := Prod.ext rfl left
  have some : p ≠ [] := ne_nil_of_suffix within (List.cons_ne_nil c more)
  have full : k ≠ [] := ne_nil_of_suffix behind (List.cons_ne_nil c more)
  refine ⟨(readName (p ++ u)).1, k, read, readName_swap read some fun empty => absurd empty full,
    behind, ?_⟩
  exact suffix_of_append (left ▸ readName_suffix (p ++ u))

theorem readNumber_unsigned {c : Char} (s : Text) (unsigned : c ≠ '-') :
    readNumber (c :: s) =
      ((c :: s).takeWhile isNumberChar, (c :: s).dropWhile isNumberChar) := by
  unfold readNumber
  split
  · next same => exact absurd (List.cons.inj same).1 unsigned
  · rfl

theorem readNumber_swap {number : Text} (read : readNumber (p ++ u) = (number, k ++ u))
    (some : p ≠ []) (stop : k = [] → StopsAt isNumberChar v) :
    readNumber (p ++ v) = (number, k ++ v) := by
  cases p with
  | nil => exact absurd rfl some
  | cons c more =>
      by_cases sign : c = '-'
      · subst sign
        simp only [List.cons_append, readNumber] at read ⊢
        obtain ⟨left, taken⟩ := dropWhile_swap (Prod.mk.inj read).2 stop
        rw [left, taken, ← (Prod.mk.inj read).1]
      · rw [List.cons_append, readNumber_unsigned _ sign, ← List.cons_append] at read ⊢
        obtain ⟨left, taken⟩ := dropWhile_swap (Prod.mk.inj read).2 stop
        rw [left, taken, ← (Prod.mk.inj read).1]

theorem readQuoted_swap {quote : Char} {body : Text} (plain : quote ≠ '\\')
    (read : Text.readQuoted quote (p ++ u) = some (body, k ++ u)) :
    Text.readQuoted quote (p ++ v) = some (body, k ++ v) := by
  have whole := Text.eq_append_of_readQuoted read
  rw [← List.append_assoc] at whole
  rw [List.append_cancel_right whole, List.append_assoc]
  exact Text.readQuoted_append quote body (k ++ v) (closesAtEnd_readQuoted plain read) plain

theorem readKey_swap {key : Text} (read : readKey (p ++ u) = some (key, k ++ u)) (full : k ≠ []) :
    readKey (p ++ v) = some (key, k ++ v) := by
  cases p with
  | nil =>
      have left := readKey_suffix read
      exact absurd (List.suffix_nil.mp (suffix_of_append (p := []) left)) full
  | cons c more =>
      simp only [List.cons_append, readKey] at read ⊢
      split at read
      · next quote =>
          obtain ⟨⟨body, rest⟩, found, same⟩ := Option.map_eq_some_iff.mp read
          obtain ⟨rfl, rfl⟩ := Prod.mk.inj same
          have plain : c ≠ '\\' := by rcases quote with rfl | rfl <;> decide
          rw [if_pos quote, readQuoted_swap plain found]
          rfl
      · next noQuote =>
          rw [if_neg noQuote]
          split at read
          · next digit =>
              rw [if_pos digit]
              exact congrArg some (readNumber_swap (p := c :: more) (Option.some.inj read)
                (List.cons_ne_nil c more) fun empty => absurd empty full)
          · next noDigit =>
              rw [if_neg noDigit]
              split at read
              · next start =>
                  rw [if_pos start]
                  exact congrArg some (readName_swap (p := c :: more) (Option.some.inj read)
                    (List.cons_ne_nil c more) fun empty => absurd empty full)
              · cases read

/-- A key with its mark: what is behind its `:` may be exchanged. -/
theorem readKeyed_swap {key : Text} {isOptional : Bool}
    (read : readKeyed (p ++ u) = some (key, isOptional, k ++ u)) :
    readKeyed (p ++ v) = some (key, isOptional, k ++ v) := by
  unfold readKeyed at read
  split at read
  · cases read
  · next word rest found =>
      split at read
      · next more mark =>
          split at read
          · next behind colon =>
              cases read
              have cut : Text.trimStart more = (':' :: k) ++ u := colon
              obtain ⟨m, rfl, -⟩ := eq_append_of_suffix (cut ▸ trimStart_suffix more)
              have outer : rest.trimStart = ('?' :: m) ++ u := mark
              obtain ⟨n, rfl, behind⟩ := eq_append_of_suffix (outer ▸ trimStart_suffix rest)
              have again := readKey_swap (v := v) found
                (ne_nil_of_suffix behind (List.cons_ne_nil _ _))
              simp only [readKeyed, again, trimStart_swap outer (List.cons_ne_nil _ _),
                List.cons_append, trimStart_swap cut (List.cons_ne_nil _ _)]
          · cases read
      · next behind colon =>
          cases read
          have outer : rest.trimStart = (':' :: k) ++ u := colon
          obtain ⟨n, rfl, behind⟩ := eq_append_of_suffix (outer ▸ trimStart_suffix rest)
          have again := readKey_swap (v := v) found
            (ne_nil_of_suffix behind (List.cons_ne_nil _ _))
          simp only [readKeyed, again, trimStart_swap outer (List.cons_ne_nil _ _),
            List.cons_append]
      · cases read

/-- A key ends before a character that stands in no key, unless that is quoted. -/
theorem suffix_readKey {c : Char} {more s key rest : Text} (start : isNameStart c = false)
    (later : isNameChar c = false) (number : isNumberChar c = false) (within : c :: more <:+ s)
    (quoted : ∀ quote t body, s = quote :: t → quote = '\'' ∨ quote = '"' →
      Text.readQuoted quote t = some (body, rest) → c :: more <:+ rest)
    (read : readKey s = some (key, rest)) : c :: more <:+ rest := by
  unfold readKey at read
  split at read
  · cases read
  · next d t =>
      split at read
      · next quote =>
          obtain ⟨⟨body, left⟩, found, same⟩ := Option.map_eq_some_iff.mp read
          cases same
          exact quoted d t body rfl quote found
      · split at read
        · next digit =>
            have unsigned : d ≠ '-' := by
              rintro rfl
              cases digit
            rw [readNumber_unsigned t unsigned] at read
            cases read
            exact suffix_dropWhile number within
        · split at read
          · have left : (readName (d :: t)).2 = rest := congrArg Prod.snd (Option.some.inj read)
            exact left ▸ suffix_readName start later within
          · cases read

theorem suffix_readKeyed {c : Char} {more s word behind key rest : Text} {isOptional : Bool}
    (visible : isBlank c = false) (noMark : c ≠ '?') (noColon : c ≠ ':')
    (found : readKey s = some (word, behind)) (within : c :: more <:+ behind)
    (read : readKeyed s = some (key, isOptional, rest)) : c :: more <:+ rest := by
  have shown : ∀ {t : Text}, c :: more <:+ t → c :: more <:+ t.trimStart :=
    fun within => suffix_dropWhile visible within
  simp only [readKeyed, found] at read
  split at read
  · next after mark =>
      have within : c :: more <:+ after := suffix_of_cons_ne noMark (mark ▸ shown within)
      split at read
      · next last colon =>
          cases read
          exact suffix_of_cons_ne noColon (colon ▸ shown within)
      · cases read
  · next last colon =>
      cases read
      exact suffix_of_cons_ne noColon (colon ▸ shown within)
  · cases read

/-- An entry without a key has none with another text behind it, if it is closed before. -/
theorem readKeyed_none_swap {c : Char} {more : Text} (start : isNameStart c = false)
    (later : isNameChar c = false) (number : isNumberChar c = false) (visible : isBlank c = false)
    (noMark : c ≠ '?') (noColon : c ≠ ':') (within : c :: more <:+ p)
    (quoted : ∀ quote t, p = quote :: t → quote = '\'' ∨ quote = '"' →
      ∃ body k, Text.readQuoted quote (t ++ u) = some (body, k ++ u) ∧ c :: more <:+ k)
    (absent : readKeyed (p ++ u) = none) : readKeyed (p ++ v) = none := by
  cases read : readKeyed (p ++ v) with
  | none => rfl
  | some entry =>
      obtain ⟨key, isOptional, rest⟩ := entry
      have anchor : c :: more ++ v <:+ p ++ v := suffix_append_right within v
      cases found : readKey (p ++ v) with
      | none => simp [readKeyed, found] at read
      | some front =>
          obtain ⟨word, behind⟩ := front
          have keyEnds : c :: more ++ v <:+ behind := by
            refine suffix_readKey start later number anchor ?_ found
            intro quote t body same mark readQuoted
            cases p with
            | nil => cases List.suffix_nil.mp within
            | cons d tail =>
                obtain ⟨rfl, rfl⟩ := List.cons.inj same
                obtain ⟨other, k, readBefore, behindQuote⟩ := quoted d tail rfl mark
                have plain : d ≠ '\\' := by rcases mark with rfl | rfl <;> decide
                have readAgain := readQuoted_swap (v := v) plain readBefore
                rw [List.append_eq] at readQuoted
                rw [readAgain] at readQuoted
                cases readQuoted
                exact suffix_append_right behindQuote v
          have ends := suffix_readKeyed visible noMark noColon found keyEnds read
          obtain ⟨k, rfl, -⟩ := eq_append_of_suffix (q := c :: more) ends
          rw [readKeyed_swap read] at absent
          cases absent

theorem after?_swap {start : Text} (found : Text.after? start (p ++ u) = some (k ++ u)) :
    Text.after? start (p ++ v) = some (k ++ v) := by
  have whole := Text.eq_append_of_after? found
  rw [← List.append_assoc] at whole
  rw [List.append_cancel_right whole, List.append_assoc]
  exact Text.after?_append start (k ++ v)

/-- Marks at the front of a text stand before what goes on with none. -/
theorem eq_append_of_marks {start rest : Text} (apart : Apart v)
    (marks : ∀ c ∈ start, isBreak c = false) (same : p ++ v = start ++ rest) :
    ∃ m, p = start ++ m := by
  induction start generalizing p with
  | nil => exact ⟨p, rfl⟩
  | cons a start ih =>
      cases p with
      | nil => exact absurd same (apart.head_ne (marks a List.mem_cons_self))
      | cons c more =>
          obtain ⟨rfl, later⟩ := List.cons.inj same
          obtain ⟨m, rfl⟩ := ih (fun d found => marks d (List.mem_cons_of_mem _ found)) later
          exact ⟨m, rfl⟩

theorem after?_none_swap {start : Text} (apart : Apart v)
    (marks : ∀ c ∈ start, isBreak c = false) (absent : Text.after? start (p ++ u) = none) :
    Text.after? start (p ++ v) = none := by
  cases found : Text.after? start (p ++ v) with
  | none => rfl
  | some rest =>
      obtain ⟨m, rfl⟩ := eq_append_of_marks apart marks (Text.eq_append_of_after? found)
      rw [List.append_assoc, Text.after?_append] at absent
      cases absent

theorem dropOptional_swap {start : Text} (apart : Apart v)
    (marks : ∀ c ∈ start, isBreak c = false)
    (cut : (p ++ u).dropOptional start = k ++ u) : (p ++ v).dropOptional start = k ++ v := by
  unfold Text.dropOptional at cut ⊢
  cases found : Text.after? start (p ++ u) with
  | none =>
      rw [found] at cut
      have same : p = k := List.append_cancel_right cut
      rw [after?_none_swap apart marks found, same]
      rfl
  | some rest =>
      rw [found] at cut
      have same : rest = k ++ u := cut
      rw [same] at found
      rw [after?_swap found]
      rfl

theorem skipVariable_swap (cut : skipVariable (p ++ u) = k ++ u) (some : p ≠ [])
    (stop : k = [] → StopsAt isNameChar v) : skipVariable (p ++ v) = k ++ v := by
  cases p with
  | nil => exact absurd rfl some
  | cons c more =>
      by_cases mark : c = '$'
      · subst mark
        exact (dropWhile_swap cut stop).1
      · have plain : ∀ w : Text, skipVariable (c :: more ++ w) = c :: more ++ w := by
          intro w
          unfold skipVariable
          split
          · next same => exact absurd (List.cons.inj same).1 mark
          · rfl
        rw [plain] at cut ⊢
        rw [List.append_cancel_right cut]

theorem behindParameter_swap (apart : Apart v) (cut : behindParameter (p ++ u) = q ++ u)
    (full : q ≠ []) : behindParameter (p ++ v) = q ++ v := by
  unfold behindParameter at cut ⊢
  have beforeEquals : q ++ u <:+ (skipVariable (((p ++ u).trimStart.dropOptional ['&']).dropOptional
      ['.', '.', '.'])).trimStart := cut ▸ dropOptional_suffix _ _
  have beforeVariable := (beforeEquals.trans (trimStart_suffix _)).trans (skipVariable_suffix _)
  have beforeDots := beforeVariable.trans (dropOptional_suffix _ _)
  obtain ⟨k, seen, again, -⟩ := trimStart_reach (beforeDots.trans (dropOptional_suffix _ _)) full v
  rw [seen] at cut beforeEquals beforeVariable beforeDots
  obtain ⟨l, seen, -⟩ := eq_append_of_suffix beforeDots
  have l_again := dropOptional_swap apart (forall_of_all (by decide)) seen
  rw [seen] at cut beforeEquals beforeVariable
  obtain ⟨m, seen, behind⟩ := eq_append_of_suffix beforeVariable
  have m_again := dropOptional_swap apart (forall_of_all (by decide)) seen
  rw [seen] at cut beforeEquals
  obtain ⟨n, seen, -⟩ := eq_append_of_suffix (beforeEquals.trans (trimStart_suffix _))
  have n_again := skipVariable_swap seen (ne_nil_of_suffix behind full) fun _ => apart.name
  rw [seen] at cut beforeEquals
  obtain ⟨o, seen, o_again, -⟩ := trimStart_reach beforeEquals full v
  rw [seen] at cut
  rw [again, l_again, m_again, n_again, o_again]
  exact dropOptional_swap apart (forall_of_all (by decide)) cut

end DocSig.DocType
