import DocSig.Proofs.DocType.Runs

/-!
What a successful reader takes off a text: a part that is not empty and ends in no white space
of ASCII (`Took`), and behind it as many brackets are open as before.

Each reader is followed once (`Takes`), given that the readers of its parts do so; the readers
of types and terms follow by induction on the allowance.
-/

set_option autoImplicit false

namespace DocSig.DocType

/-- `rest` is left of `s` behind a part whose last character is no white space of ASCII. -/
def Took (s rest : Text) : Prop :=
  ∃ front last, s = front ++ last :: rest ∧ (isAscii last = true → isBlank last = false)

/-- Whenever the reader succeeds it has taken something, and no bracket more is open. -/
def Takes {α : Type} (reader : Reader α) : Prop :=
  ∀ here x there, reader here = .ok (x, there) →
    there.depth = here.depth ∧ Took here.rest there.rest

/-- Whenever the reader succeeds it has taken something or nothing. -/
def Passes {α : Type} (reader : Reader α) : Prop :=
  ∀ here x there, reader here = .ok (x, there) →
    there.depth = here.depth ∧ (there.rest = here.rest ∨ Took here.rest there.rest)

theorem Took.suffix {s rest : Text} (took : Took s rest) : rest <:+ s := by
  obtain ⟨front, last, rfl, -⟩ := took
  exact ⟨front ++ [last], by simp⟩

theorem Took.of_suffix {s middle rest : Text} (suffix : middle <:+ s) (took : Took middle rest) :
    Took s rest := by
  obtain ⟨before, rfl⟩ := suffix
  obtain ⟨front, last, rfl, visible⟩ := took
  exact ⟨before ++ front, last, by simp, visible⟩

theorem Took.trans {s middle rest : Text} (first : Took s middle) (second : Took middle rest) :
    Took s rest := second.of_suffix first.suffix

/-- A part that ends well, with nothing or another such part behind it. -/
theorem Took.optional {s middle rest : Text} (first : Took s middle)
    (second : rest = middle ∨ Took middle rest) : Took s rest := by
  rcases second with rfl | second
  · exact first
  · exact first.trans second

theorem took_char {s rest : Text} {c : Char} (suffix : c :: rest <:+ s)
    (visible : isBlank c = false) : Took s rest := by
  obtain ⟨front, rfl⟩ := suffix
  exact ⟨front, c, rfl, fun _ => visible⟩

/-- A word of characters of a class without white space of ASCII. -/
theorem took_word {class? : Char → Bool} (word rest : Text) (some : word ≠ [])
    (all : ∀ c ∈ word, class? c = true)
    (visible : ∀ c, class? c = true → isAscii c = true → isBlank c = false) :
    Took (word ++ rest) rest := by
  refine ⟨word.dropLast, word.getLast some, ?_, visible _ (all _ (List.getLast_mem some))⟩
  conv_lhs => rw [← List.dropLast_append_getLast some]
  simp

theorem trimStart_suffix (s : Text) : s.trimStart <:+ s := List.dropWhile_suffix isBlank

theorem behindSeparators_suffix (depth : Nat) (s : Text) : behindSeparators depth s <:+ s := by
  unfold behindSeparators Cursor.skipSeparators
  split
  · exact trimStart_suffix s
  · exact List.dropWhile_suffix isSpaceOrTab

theorem readName_suffix (s : Text) : (readName s).2 <:+ s := ⟨(readName s).1, readName_split s⟩

theorem dropOptional_suffix (s start : Text) : s.dropOptional start <:+ s := by
  have after : ∀ (start s rest : Text), Text.after? start s = some rest → rest <:+ s := by
    intro start s
    fun_induction Text.after? start s with
    | case1 s => simp
    | case2 => simp
    | case3 start c s ih => exact fun rest found => (ih rest found).trans (List.suffix_cons c s)
    | case4 => simp
  unfold Text.dropOptional
  cases found : Text.after? start s with
  | none => exact List.suffix_refl s
  | some rest => exact after start s rest found

theorem expect_takes {wanted : Char} {here there : Cursor} (read : expect wanted here = .ok there) :
    there.depth = here.depth ∧ wanted :: there.rest <:+ here.rest := by
  obtain ⟨mark, same⟩ := expect_ok_iff.mp read
  exact ⟨same, mark ▸ trimStart_suffix here.rest⟩

/-- Two readers one after the other, the second of which may take nothing. -/
theorem takes_then {α β γ : Type} {first : Reader α} {second : Reader β} (combine : α → β → γ)
    (takes : Takes first) (passes : Passes second) :
    Takes fun here => do
      let (x, here) ← first here
      let (y, here) ← second here
      return (combine x y, here) := by
  intro here x there read
  obtain ⟨⟨type, middle⟩, one, next⟩ := bind_eq_ok.mp read
  obtain ⟨⟨types, last⟩, two, final⟩ := bind_eq_ok.mp next
  cases final
  obtain ⟨sameOne, tookOne⟩ := takes _ _ _ one
  obtain ⟨sameTwo, tookTwo⟩ := passes _ _ _ two
  exact ⟨sameTwo.trans sameOne, tookOne.optional tookTwo⟩

/-- One more member behind its mark, and the members behind it. -/
theorem took_joined {member : Reader DocType} {others : Reader (List DocType)}
    (takes : Takes member) (passes : Passes others) {rest more : Text} {depth : Nat} {mark : Char}
    {type : DocType} {types : List DocType} {middle last : Cursor}
    (found : behindSeparators depth rest = mark :: more)
    (first : member ⟨behindSeparators depth more, depth⟩ = .ok (type, middle))
    (next : others middle = .ok (types, last)) : last.depth = depth ∧ Took rest last.rest := by
  obtain ⟨sameFirst, tookFirst⟩ := takes _ _ _ first
  obtain ⟨sameOthers, tookOthers⟩ := passes _ _ _ next
  have marked : mark :: more <:+ rest := found ▸ behindSeparators_suffix depth rest
  have front : behindSeparators depth more <:+ rest :=
    (behindSeparators_suffix depth more).trans ((List.suffix_cons mark more).trans marked)
  exact ⟨sameOthers.trans sameFirst, (tookFirst.optional tookOthers).of_suffix front⟩

theorem passes_moreAlternatives {member : Reader DocType} (takes : Takes member)
    (allowance : Nat) : Passes (moreAlternatives member allowance) := by
  induction allowance with
  | zero =>
      intro here x there read
      cases read
  | succ allowance ih =>
      intro here x there read
      cases moreAlternatives_ok_iff.mp read with
      | joined mark some first next =>
          obtain ⟨same, took⟩ := took_joined takes ih mark first next
          exact ⟨same, Or.inr took⟩
      | ends stop => exact ⟨rfl, Or.inl rfl⟩

theorem passes_moreConjuncts {member : Reader DocType} (takes : Takes member)
    (allowance : Nat) : Passes (moreConjuncts member allowance) := by
  induction allowance with
  | zero =>
      intro here x there read
      cases read
  | succ allowance ih =>
      intro here x there read
      cases moreConjuncts_ok_iff.mp read with
      | joined mark goesOn first next =>
          obtain ⟨same, took⟩ := took_joined takes ih mark first next
          exact ⟨same, Or.inr took⟩
      | ends stop => exact ⟨rfl, Or.inl rfl⟩

theorem takes_alternation {member : Reader DocType} (takes : Takes member) (allowance : Nat) :
    Takes (alternation member allowance) :=
  takes_then unionOf takes (passes_moreAlternatives takes allowance)

theorem takes_conjunction {member : Reader DocType} (takes : Takes member) (allowance : Nat) :
    Takes (conjunction member allowance) :=
  takes_then intersectionOf takes (passes_moreConjuncts takes allowance)

theorem wrapArrays_took (type : DocType) (s : Text) :
    (wrapArrays type s).2 = s ∨ Took s (wrapArrays type s).2 := by
  fun_induction wrapArrays type s with
  | case1 type rest ih =>
      have bracket : Took ('[' :: ']' :: rest) rest := ⟨['['], ']', rfl, by decide⟩
      exact Or.inr (bracket.optional ih)
  | case2 type rest _ => exact Or.inl rfl

theorem takes_arrayed {atom : Reader DocType} (takes : Takes atom) : Takes (arrayed atom) := by
  intro here x there read
  obtain ⟨type, middle, first, wrapped, depth⟩ := arrayed_ok_iff.mp read
  obtain ⟨same, took⟩ := takes _ _ _ first
  have brackets := wrapArrays_took type middle.rest
  rw [wrapped] at brackets
  exact ⟨depth.trans same, took.optional brackets⟩

/-- A list ends with its closing bracket. -/
theorem takes_listUntil {α : Type} {item : Reader α} (close : Char)
    (visible : isBlank close = false)
    (shortens : ∀ here x there, item here = .ok (x, there) →
      there.depth = here.depth ∧ there.rest <:+ here.rest)
    (allowance : Nat) : Takes (listUntil item close allowance) := by
  induction allowance with
  | zero =>
      intro here x there read
      cases read
  | succ allowance ih =>
      intro here x there read
      have front := trimStart_suffix here.rest
      cases listUntil_ok_iff.mp read with
      | closed mark => exact ⟨rfl, took_char (mark ▸ front) visible⟩
      | more goesOn first comma next =>
          obtain ⟨same, suffix⟩ := shortens _ _ _ first
          obtain ⟨sameLast, took⟩ := ih _ _ _ next
          have behind := comma ▸ (trimStart_suffix _).trans (suffix.trans front)
          exact ⟨sameLast.trans same, took.of_suffix ((List.suffix_cons ',' _).trans behind)⟩
      | last goesOn first noComma ended =>
          obtain ⟨same, suffix⟩ := shortens _ _ _ first
          obtain ⟨sameLast, behind⟩ := expect_takes ended
          exact ⟨sameLast.trans same, took_char (behind.trans (suffix.trans front)) visible⟩

theorem behindNot_suffix (s : Text) : behindNot s <:+ s := by
  unfold behindNot
  split
  · exact readName_suffix s
  · exact List.suffix_refl s

theorem takes_grouped {union : Reader DocType} (takes : Takes union) : Takes (grouped union) := by
  intro here x there read
  cases grouped_ok_iff.mp read with
  | plain first noWord close =>
      obtain ⟨same, tookFirst⟩ := takes _ _ _ first
      obtain ⟨sameLast, behind⟩ := expect_takes close
      have front := tookFirst.suffix.trans (trimStart_suffix here.rest)
      exact ⟨sameLast.trans same, took_char (behind.trans front) (by decide)⟩
  | @condition _ _ _ _ middle _ _ _ _ _ _ rest first word two mark three colon four close =>
      obtain ⟨same, tookFirst⟩ := takes _ _ _ first
      obtain ⟨sameTwo, tookTwo⟩ := takes _ _ _ two
      obtain ⟨sameMark, behindMark⟩ := expect_takes mark
      obtain ⟨sameThree, tookThree⟩ := takes _ _ _ three
      obtain ⟨sameColon, behindColon⟩ := expect_takes colon
      obtain ⟨sameFour, tookFour⟩ := takes _ _ _ four
      obtain ⟨sameClose, behindClose⟩ := expect_takes close
      have behindWord : rest <:+ middle.rest.trimStart := by
        have behind := readName_suffix middle.rest.trimStart
        rwa [word] at behind
      have behindTarget := (tookTwo.suffix.trans (behindNot_suffix _)).trans
        ((trimStart_suffix rest).trans (behindWord.trans ((trimStart_suffix _).trans
          (tookFirst.suffix.trans (trimStart_suffix here.rest)))))
      have behindPositive :=
        tookThree.suffix.trans ((List.suffix_cons '?' _).trans (behindMark.trans behindTarget))
      have behindNegative :=
        tookFour.suffix.trans ((List.suffix_cons ':' _).trans (behindColon.trans behindPositive))
      refine ⟨?_, took_char (behindClose.trans behindNegative) (by decide)⟩
      rw [sameClose, sameFour, sameColon, sameThree, sameMark, sameTwo]
      exact same

theorem behindVariance_suffix (s : Text) : behindVariance s <:+ s := by
  unfold behindVariance
  split
  · exact (trimStart_suffix _).trans (readName_suffix s)
  · exact List.suffix_refl s

theorem takes_typeArgument {union : Reader DocType} (takes : Takes union) :
    Takes (typeArgument union) := by
  intro here x there read
  have front := trimStart_suffix here.rest
  cases typeArgument_ok_iff.mp read with
  | star mark => exact ⟨rfl, took_char (mark ▸ front) (by decide)⟩
  | type noStar read =>
      obtain ⟨same, took⟩ := takes _ _ _ read
      exact ⟨same, took.of_suffix ((behindVariance_suffix _).trans front)⟩

/-- Characters of names, numbers and constants that are white space lie outside of ASCII. -/
theorem word_visible (c : Char)
    (word : isNameStart c = true ∨ isNameChar c = true ∨ isNumberChar c = true ∨
      isConstantChar c = true) (ascii : isAscii c = true) : isBlank c = false := by
  by_contra blank
  rcases ascii_blank_cases c ascii (by simpa using blank) with
    rfl | rfl | rfl | rfl | rfl | rfl <;> revert word <;> decide

theorem readName_took {c : Char} (s : Text) (start : isNameStart c = true) :
    Took (c :: s) (readName (c :: s)).2 := by
  simp only [readName, start, ↓reduceIte]
  by_cases empty : s.takeWhile isNameChar = []
  · have same : s.dropWhile isNameChar = s := by
      conv_rhs => rw [← List.takeWhile_append_dropWhile (p := isNameChar) (l := s), empty]
      rfl
    rw [same]
    exact ⟨[], c, rfl, word_visible c (Or.inl start)⟩
  · have took := took_word _ (s.dropWhile isNameChar) empty
      (List.all_eq_true.mp List.all_takeWhile)
      (fun d name => word_visible d (Or.inr (Or.inl name)))
    rw [List.takeWhile_append_dropWhile] at took
    exact took.of_suffix (List.suffix_cons c s)

theorem readNumber_suffix (s : Text) : (readNumber s).2 <:+ s := by
  unfold readNumber
  split
  · exact (List.dropWhile_suffix isNumberChar).trans (List.suffix_cons _ _)
  · exact List.dropWhile_suffix isNumberChar

/-- A digit and what follows it in a number. -/
theorem number_took {c : Char} (s : Text) (digit : c.isDigit = true) :
    Took (c :: s) ((c :: s).dropWhile isNumberChar) := by
  have first : isNumberChar c = true := by
    simp [isNumberChar, Char.isAlphanum, digit]
  have took := took_word ((c :: s).takeWhile isNumberChar) ((c :: s).dropWhile isNumberChar)
    (by simp [first])
    (List.all_eq_true.mp List.all_takeWhile)
    (fun d number => word_visible d (Or.inr (Or.inr (Or.inl number))))
  rwa [List.takeWhile_append_dropWhile] at took

theorem readNumber_took {s : Text} (starts : startsNumber s = true) :
    Took s (readNumber s).2 := by
  unfold startsNumber at starts
  split at starts
  · next c more => exact (number_took more starts).of_suffix (List.suffix_cons '-' _)
  · next c more plain =>
      have positive : c ≠ '-' := by
        rintro rfl
        exact absurd starts (by decide)
      rw [readNumber.eq_def]
      split
      · next equal => exact absurd (List.cons.inj equal).1 positive
      · exact number_took more starts
  · cases starts

theorem readQuoted_took {quote : Char} {s body rest : Text} (visible : isBlank quote = false)
    (read : Text.readQuoted quote s = some (body, rest)) : Took s rest := by
  fun_induction Text.readQuoted quote s generalizing body with
  | case1 => cases read
  | case2 c s ih =>
      obtain ⟨⟨inner, tail⟩, found, equal⟩ := Option.map_eq_some_iff.mp read
      cases equal
      exact (ih found).of_suffix ((List.suffix_cons c s).trans (List.suffix_cons _ _))
  | case3 s _ =>
      cases read
      exact took_char (List.suffix_refl _) visible
  | case4 c s _ _ ih =>
      obtain ⟨⟨inner, tail⟩, found, equal⟩ := Option.map_eq_some_iff.mp read
      cases equal
      exact (ih found).of_suffix (List.suffix_cons c s)

theorem readKey_suffix {s key rest : Text} (read : readKey s = some (key, rest)) : rest <:+ s := by
  unfold readKey at read
  split at read
  · cases read
  · next c s =>
      split at read
      · next quote =>
          obtain ⟨⟨body, tail⟩, found, equal⟩ := Option.map_eq_some_iff.mp read
          cases equal
          have visible : isBlank c = false := by rcases quote with rfl | rfl <;> decide
          exact (readQuoted_took visible found).suffix.trans (List.suffix_cons c s)
      · split at read
        · have equal : (readNumber (c :: s)).2 = rest := congrArg Prod.snd (Option.some.inj read)
          rw [← equal]
          exact readNumber_suffix (c :: s)
        · split at read
          · have equal : (readName (c :: s)).2 = rest := congrArg Prod.snd (Option.some.inj read)
            rw [← equal]
            exact readName_suffix (c :: s)
          · cases read

theorem readKeyed_suffix {s key rest : Text} {isOptional : Bool}
    (read : readKeyed s = some (key, isOptional, rest)) : rest <:+ s := by
  unfold readKeyed at read
  split at read
  · cases read
  · next word behind found =>
      have front := (trimStart_suffix behind).trans (readKey_suffix found)
      split at read
      · next more mark =>
          have marked : '?' :: more <:+ s := mark ▸ front
          have next := (trimStart_suffix more).trans ((List.suffix_cons '?' more).trans marked)
          split at read
          · next last colon =>
              cases read
              exact (List.suffix_cons ':' _).trans (colon ▸ next)
          · cases read
      · next more colon =>
          cases read
          exact (List.suffix_cons ':' _).trans (colon ▸ front)
      · cases read

theorem takes_shapeEntry {union : Reader DocType} (takes : Takes union) :
    Takes (shapeEntry union) := by
  intro here x there read
  have front := trimStart_suffix here.rest
  cases shapeEntry_ok_iff.mp read with
  | @dots rest mark =>
      refine ⟨rfl, took_char (c := '.') ?_ (by decide)⟩
      have dots : '.' :: '.' :: '.' :: rest <:+ here.rest := mark ▸ front
      exact (List.suffix_cons '.' _).trans ((List.suffix_cons '.' _).trans dots)
  | keyed noDots found read =>
      obtain ⟨same, took⟩ := takes _ _ _ read
      exact ⟨same, took.of_suffix ((readKeyed_suffix found).trans front)⟩
  | bare noDots noKey read =>
      obtain ⟨same, took⟩ := takes _ _ _ read
      exact ⟨same, took.of_suffix front⟩

theorem skipVariable_suffix (s : Text) : skipVariable s <:+ s := by
  unfold skipVariable
  split
  · exact (List.dropWhile_suffix isNameChar).trans (List.suffix_cons _ _)
  · exact List.suffix_refl _

theorem behindParameter_suffix (s : Text) : behindParameter s <:+ s :=
  (dropOptional_suffix _ _).trans <| (trimStart_suffix _).trans <| (skipVariable_suffix _).trans <|
    (dropOptional_suffix _ _).trans <| (dropOptional_suffix _ _).trans (trimStart_suffix s)

/-- A parameter is a type and whatever of the words behind it is there. -/
theorem parameter_shortens {union : Reader DocType} (takes : Takes union) (here : Cursor)
    (type : DocType) (there : Cursor) (read : parameter union here = .ok (type, there)) :
    there.depth = here.depth ∧ there.rest <:+ here.rest := by
  obtain ⟨middle, one, rfl⟩ := parameter_ok_iff.mp read
  obtain ⟨same, took⟩ := takes _ _ _ one
  exact ⟨same, (behindParameter_suffix middle.rest).trans took.suffix⟩

theorem Takes.shortens {α : Type} {reader : Reader α} (takes : Takes reader) (here : Cursor) (x : α)
    (there : Cursor) (read : reader here = .ok (x, there)) :
    there.depth = here.depth ∧ there.rest <:+ here.rest :=
  ⟨(takes here x there read).1, (takes here x there read).2.suffix⟩

/-- A list in brackets, with the bracket that opens it. -/
theorem bracketed_took {α : Type} {item : Reader α} (close : Char) (visible : isBlank close = false)
    (shortens : ∀ here x there, item here = .ok (x, there) →
      there.depth = here.depth ∧ there.rest <:+ here.rest)
    {allowance depth : Nat} {more : Text} {start : Char} {xs : List α} {last : Cursor}
    (list : listUntil item close allowance ⟨more, depth + 1⟩ = .ok (xs, last)) :
    last.leave.depth = depth ∧ Took (start :: more) last.leave.rest := by
  obtain ⟨same, took⟩ := takes_listUntil close visible shortens allowance _ _ _ list
  refine ⟨?_, took.of_suffix (List.suffix_cons start more)⟩
  simp [Cursor.leave, same]

theorem constant_took {more : Text} (some : more.takeWhile isConstantChar ≠ []) :
    Took (':' :: ':' :: more) (more.dropWhile isConstantChar) := by
  have constant := took_word _ (more.dropWhile isConstantChar) some
    (List.all_eq_true.mp List.all_takeWhile)
    (fun d kind => word_visible d (Or.inr (Or.inr (Or.inr kind))))
  rw [List.takeWhile_append_dropWhile] at constant
  exact constant.of_suffix
    ((List.suffix_cons ':' more).trans (List.suffix_cons ':' (':' :: more)))

/-- Behind a name, something goes on with it or nothing does. -/
theorem NameRun.passes {union term : Reader DocType} (takesUnion : Takes union)
    (takesTerm : Takes term) {allowance depth : Nat} {base s : Text} {type : DocType}
    {there : Cursor} (run : NameRun union term allowance base depth s type there) :
    there.depth = depth ∧ (there.rest = s ∨ Took s there.rest) := by
  cases run with
  | constant some => exact ⟨rfl, Or.inr (constant_took some)⟩
  | generic list some =>
      obtain ⟨same, took⟩ :=
        bracketed_took '>' (by decide) (takes_typeArgument takesUnion).shortens list
      exact ⟨same, Or.inr took⟩
  | shape list =>
      obtain ⟨same, took⟩ :=
        bracketed_took '\x7d' (by decide) (takes_shapeEntry takesUnion).shortens list
      exact ⟨same, Or.inr took⟩
  | @function _ tail _ _ last _ callable list colon read =>
      obtain ⟨sameList, behind⟩ :=
        bracketed_took ')' (by decide) (parameter_shortens takesUnion) list
      obtain ⟨sameResult, tookResult⟩ := takesTerm _ _ _ read
      have front := colon ▸ behindSeparators_suffix last.leave.depth last.leave.rest
      refine ⟨sameResult.trans sameList, Or.inr (behind.trans (tookResult.of_suffix ?_))⟩
      exact (behindSeparators_suffix _ tail).trans ((List.suffix_cons ':' tail).trans front)
  | callable callable list noColon =>
      obtain ⟨same, took⟩ := bracketed_took ')' (by decide) (parameter_shortens takesUnion) list
      exact ⟨same, Or.inr took⟩
  | name noConstant noGeneric noShape noCall => exact ⟨rfl, Or.inl rfl⟩

theorem AtomRun.took {union term : Reader DocType} (takesUnion : Takes union)
    (takesTerm : Takes term) {allowance depth : Nat} {s : Text} {type : DocType} {there : Cursor}
    (run : AtomRun union term allowance depth s type there) :
    there.depth = depth ∧ Took s there.rest := by
  cases run with
  | nullable read =>
      obtain ⟨same, took⟩ := takesTerm _ _ _ read
      exact ⟨same, took.of_suffix (List.suffix_cons '?' _)⟩
  | group read =>
      obtain ⟨same, took⟩ := takes_grouped takesUnion _ _ _ read
      exact ⟨by simp [Cursor.leave, same], took.of_suffix (List.suffix_cons '(' _)⟩
  | @quoted c _ _ _ quote read =>
      have visible : isBlank c = false := by rcases quote with rfl | rfl <;> decide
      exact ⟨rfl, (readQuoted_took visible read).of_suffix (List.suffix_cons _ _)⟩
  | number starts => exact ⟨rfl, readNumber_took starts⟩
  | @name c s _ _ start read =>
      obtain ⟨same, passed⟩ := (named_ok_iff.mp read).2.passes takesUnion takesTerm
      exact ⟨same, (readName_took s start).optional passed⟩

theorem atomStart_suffix (here : Cursor) : atomStart here <:+ here.rest := by
  unfold atomStart
  split
  · exact trimStart_suffix here.rest
  · exact List.suffix_refl here.rest

theorem takes_atom {union term : Reader DocType} (takesUnion : Takes union)
    (takesTerm : Takes term) (allowance : Nat) : Takes (atom union term allowance) := by
  intro here x there read
  obtain ⟨same, took⟩ := (atom_ok_iff.mp read).took takesUnion takesTerm
  exact ⟨same, took.of_suffix (atomStart_suffix here)⟩

/-- The readers of types and of terms take something at every allowance. -/
theorem takes_types (allowance : Nat) :
    Takes (readUnion allowance) ∧ Takes (readTerm allowance) := by
  -- the two readers call each other with one less of the allowance
  induction allowance with
  | zero =>
      refine ⟨?_, ?_⟩
      · intro here x there read
        cases read
      · intro here x there read
        cases read
  | succ allowance ih =>
      refine ⟨?_, ?_⟩
      · rw [readUnion]
        exact takes_alternation (takes_conjunction ih.2 allowance) allowance
      · rw [readTerm]
        exact takes_arrayed (takes_atom ih.1 ih.2 allowance)

theorem parseType_took {s rest : Text} {type : DocType} (read : parseType s = .ok (type, rest)) :
    Took s rest := by
  obtain ⟨⟨found, there⟩, one, final⟩ := bind_eq_ok.mp read
  have took := ((takes_types _).1 _ _ _ one).2
  dsimp only at final took
  split at final
  · next ends =>
      cases final
      rwa [ends] at took
  · next c more goesOn =>
      split at final
      · cases final
        rwa [goesOn] at took
      · cases final

/-- Outside of brackets nothing is skipped, so a type is read only where one may begin. -/
theorem atom_head {union term : Reader DocType} {allowance : Nat} {s : Text}
    {x : DocType × Cursor} (read : atom union term allowance ⟨s, 0⟩ = .ok x) :
    ∃ c more, s = c :: more ∧ startsType c = true :=
  (atom_ok_iff.mp read).head

theorem parseType_head {s : Text} {x : DocType × Text} (read : parseType s = .ok x) :
    ∃ c more, s = c :: more ∧ startsType c = true := by
  have positive : allowanceFor s = 2 * s.length + 1 + 1 := rfl
  obtain ⟨_, union, -⟩ := bind_eq_ok.mp read
  rw [positive, readUnion] at union
  obtain ⟨_, conjunct, -⟩ := bind_eq_ok.mp union
  obtain ⟨_, term, -⟩ := bind_eq_ok.mp conjunct
  rw [readTerm] at term
  obtain ⟨_, first, -⟩ := bind_eq_ok.mp term
  exact atom_head first

end DocSig.DocType
