import DocSig.DocType.Equality
import DocSig.Proofs.DocType.Locality
import DocSig.Proofs.DocType.Spacing

/-!
A type within brackets reads the same whatever white space stands between its parts.

Each reader is followed on two texts that differ in the white space at one place (`Keeps`): what it
reads is the same, and what it leaves differs in no other way. The readers of what is in brackets
end behind the closing one (`KeepsClosing`). Both runs have one allowance; how much of it a text
needs does not matter, since any allowance that is enough gives the same.
-/

set_option autoImplicit false

namespace DocSig.DocType

variable {α β γ : Type} {gap : Gap} {t : Text} {here there : Cursor}

/-- Whatever is read of a text is read of the respaced one. -/
def Keeps (gap : Gap) (reader : Reader α) : Prop :=
  ∀ here x there t, Respaced gap here.depth here.rest t → reader here = .ok (x, there) →
    ∃ rest, reader ⟨t, here.depth⟩ = .ok (x, ⟨rest, there.depth⟩) ∧
      Respaced gap there.depth there.rest rest

/-- Whatever is read up to a closing bracket is read of the respaced text. -/
def KeepsClosing (gap : Gap) (reader : Reader α) : Prop :=
  ∀ here x there t, Respaced gap here.depth here.rest t → reader here = .ok (x, there) →
    ∃ rest, reader ⟨t, here.depth⟩ = .ok (x, ⟨rest, there.depth⟩) ∧
      Respaced gap (there.depth - 1) there.rest rest

theorem keeps_then {first : Reader α} {second : Reader β} (combine : α → β → γ)
    (keepsFirst : Keeps gap first) (keepsSecond : Keeps gap second) :
    Keeps gap fun here => do
      let (x, here) ← first here
      let (y, here) ← second here
      return (combine x y, here) := by
  intro here z there t respaced read
  obtain ⟨⟨x, middle⟩, one, next⟩ := bind_eq_ok.mp read
  obtain ⟨⟨y, last⟩, two, final⟩ := bind_eq_ok.mp next
  cases final
  obtain ⟨front, again, further⟩ := keepsFirst _ _ _ _ respaced one
  obtain ⟨rest, after, behind⟩ := keepsSecond _ _ _ _ further two
  exact ⟨rest, bind_eq_ok.mpr ⟨_, again, bind_eq_ok.mpr ⟨_, after, rfl⟩⟩, behind⟩

theorem keeps_moreAlternatives {member : Reader DocType} (keeps : Keeps gap member)
    (allowance : Nat) :
    Keeps gap (moreAlternatives member allowance) := by
  induction allowance with
  | zero =>
      intro here types there t _ read
      cases read
  | succ allowance ih =>
      intro here types there t respaced read
      have seen := respaced.separators
      cases moreAlternatives_ok_iff.mp read with
      | joined mark some first next =>
          rw [mark] at seen
          obtain ⟨rest, marked, further⟩ := seen.plain (by decide)
          obtain ⟨middle, again, behind⟩ := keeps _ _ _ _ further.separators first
          obtain ⟨last, others, final⟩ := ih _ _ _ _ behind next
          have full : behindSeparators here.depth rest ≠ [] := by
            intro empty
            have bare := further.separators.swap
            rw [empty] at bare
            exact some bare.nil
          exact ⟨last, moreAlternatives_ok_iff.mpr (.joined marked full again others), final⟩
      | ends stop =>
          refine ⟨t, moreAlternatives_ok_iff.mpr (.ends ?_), respaced⟩
          exact seen.no_mark (by decide) stop

theorem keeps_moreConjuncts {member : Reader DocType} (keeps : Keeps gap member)
    (allowance : Nat) :
    Keeps gap (moreConjuncts member allowance) := by
  induction allowance with
  | zero =>
      intro here types there t _ read
      cases read
  | succ allowance ih =>
      intro here types there t respaced read
      have seen := respaced.separators
      cases moreConjuncts_ok_iff.mp read with
      | joined mark goesOn first next =>
          rw [mark] at seen
          obtain ⟨rest, marked, further⟩ := seen.plain (by decide)
          obtain ⟨middle, again, behind⟩ := keeps _ _ _ _ further.separators first
          obtain ⟨last, others, final⟩ := ih _ _ _ _ behind next
          have onward := further.separators.startsVariable.symm.trans goesOn
          exact ⟨last, moreConjuncts_ok_iff.mpr (.joined marked onward again others), final⟩
      | ends stop =>
          refine ⟨t, moreConjuncts_ok_iff.mpr (.ends fun rest marked => ?_), respaced⟩
          -- an `&` that passes a variable by reference does so in both texts
          rw [marked] at seen
          obtain ⟨more, mark, further⟩ := seen.swap.plain (by decide)
          exact further.separators.startsVariable.trans (stop more mark)

theorem keeps_alternation {member : Reader DocType} (keeps : Keeps gap member) (allowance : Nat) :
    Keeps gap (alternation member allowance) :=
  keeps_then unionOf keeps (keeps_moreAlternatives keeps allowance)

theorem keeps_conjunction {member : Reader DocType} (keeps : Keeps gap member) (allowance : Nat) :
    Keeps gap (conjunction member allowance) :=
  keeps_then intersectionOf keeps (keeps_moreConjuncts keeps allowance)

theorem keeps_arrayed {atom : Reader DocType} (keeps : Keeps gap atom) :
    Keeps gap (arrayed atom) := by
  intro here type there t respaced read
  obtain ⟨inner, middle, first, wrapped, same⟩ := arrayed_ok_iff.mp read
  obtain ⟨front, again, further⟩ := keeps _ _ _ _ respaced first
  obtain ⟨sameType, behind⟩ := further.wrapArrays inner
  rw [wrapped] at sameType behind
  rw [← same] at behind
  exact ⟨(wrapArrays inner front).2,
    arrayed_ok_iff.mpr ⟨inner, _, again, Prod.ext sameType rfl, same⟩, behind⟩

theorem keeps_listUntil {item : Reader α} {close : Char} (closes : close ∈ [')', '>', '\x7d'])
    (keeps : Keeps gap item) (allowance : Nat) :
    KeepsClosing gap (listUntil item close allowance) := by
  have kind : isVisible close = true ∧ ∀ depth, depthBehind depth close = depth - 1 := by
    simp only [List.mem_cons, List.not_mem_nil, or_false] at closes
    rcases closes with rfl | rfl | rfl <;> exact ⟨rfl, fun _ => rfl⟩
  obtain ⟨visible, outward⟩ := kind
  induction allowance with
  | zero =>
      intro here xs there t _ read
      cases read
  | succ allowance ih =>
      intro here xs there t respaced read
      have seen := respaced.trimStart
      have onward : here.rest.trimStart.head? ≠ some close → t.trimStart.head? ≠ some close := by
        intro goesOn found
        obtain ⟨rest, marked⟩ := List.head?_eq_some_iff.mp found
        exact seen.no_mark visible (fun more mark => goesOn (mark ▸ rfl)) rest marked
      cases listUntil_ok_iff.mp read with
      | closed mark =>
          rw [mark] at seen
          obtain ⟨rest, marked, further⟩ := seen.cons visible
          rw [outward] at further
          exact ⟨rest, listUntil_ok_iff.mpr (.closed marked), further⟩
      | more goesOn first comma next =>
          obtain ⟨front, again, further⟩ := keeps _ _ _ _ seen first
          replace further := further.trimStart
          rw [comma] at further
          obtain ⟨middle, marked, behind⟩ := further.plain (by decide)
          obtain ⟨last, others, final⟩ := ih _ _ _ _ behind next
          exact ⟨last, listUntil_ok_iff.mpr (.more (onward goesOn) again marked others), final⟩
      | last goesOn first noComma ended =>
          obtain ⟨front, again, further⟩ := keeps _ _ _ _ seen first
          obtain ⟨last, closed, final⟩ := further.expect visible ended
          rw [outward] at final
          exact ⟨last, listUntil_ok_iff.mpr (.last (onward goesOn) again noComma closed), final⟩

variable {union term : Reader DocType}

theorem keeps_grouped (keeps : Keeps gap union) : KeepsClosing gap (grouped union) := by
  intro here type there t respaced read
  cases grouped_ok_iff.mp read with
  | plain first noWord close =>
      obtain ⟨front, again, further⟩ := keeps _ _ _ _ respaced.trimStart first
      have word := further.trimStart.readName.1
      obtain ⟨last, closed, final⟩ := further.expect (by decide) close
      exact ⟨last, grouped_ok_iff.mpr (.plain again (word ▸ noWord) closed), final⟩
  | condition first word two mark three colon four close =>
      obtain ⟨front, again, further⟩ := keeps _ _ _ _ respaced.trimStart first
      obtain ⟨same, behind⟩ := further.trimStart.readName
      rw [word] at same behind
      have negated := behind.trimStart.readName.1
      obtain ⟨afterTarget, target, further⟩ := keeps _ _ _ _ behind.trimStart.behindNot two
      obtain ⟨afterMark, marked, further⟩ := further.expect (by decide) mark
      obtain ⟨afterPositive, positive, further⟩ := keeps _ _ _ _ further three
      obtain ⟨afterColon, divided, further⟩ := further.expect (by decide) colon
      obtain ⟨afterNegative, negative, further⟩ := keeps _ _ _ _ further four
      obtain ⟨last, closed, final⟩ := further.expect (by decide) close
      refine ⟨last, grouped_ok_iff.mpr ?_, final⟩
      rw [← negated]
      exact .condition again (Prod.ext same rfl) target marked positive divided negative closed

theorem keeps_typeArgument (keeps : Keeps gap union) : Keeps gap (typeArgument union) := by
  intro here type there t respaced read
  have seen := respaced.trimStart
  cases typeArgument_ok_iff.mp read with
  | star mark =>
      rw [mark] at seen
      obtain ⟨rest, marked, further⟩ := seen.plain (by decide)
      exact ⟨rest, typeArgument_ok_iff.mpr (.star marked), further⟩
  | type noStar read =>
      obtain ⟨rest, again, further⟩ := keeps _ _ _ _ seen.behindVariance read
      exact ⟨rest, typeArgument_ok_iff.mpr (.type (seen.no_mark (by decide) noStar) again), further⟩

theorem keeps_shapeEntry (keeps : Keeps gap union) : Keeps gap (shapeEntry union) := by
  intro here entry there t respaced read
  have seen := respaced.trimStart
  have dots : ['.', '.', '.'].all isPlain = true := by decide
  cases shapeEntry_ok_iff.mp read with
  | dots mark =>
      rw [mark] at seen
      obtain ⟨rest, marked, further⟩ := seen.word ['.', '.', '.'] dots
      exact ⟨rest, shapeEntry_ok_iff.mpr (.dots marked), further⟩
  | keyed noDots found read =>
      obtain ⟨behind, key, further⟩ := seen.readKeyed found
      obtain ⟨rest, again, final⟩ := keeps _ _ _ _ further read
      exact ⟨rest, shapeEntry_ok_iff.mpr
        (.keyed (seen.no_word ['.', '.', '.'] dots noDots) key again), final⟩
  | bare noDots noKey read =>
      obtain ⟨rest, again, final⟩ := keeps _ _ _ _ seen read
      exact ⟨rest, shapeEntry_ok_iff.mpr
        (.bare (seen.no_word ['.', '.', '.'] dots noDots) (seen.no_key noKey) again), final⟩

theorem keeps_parameter (keeps : Keeps gap union) : Keeps gap (parameter union) := by
  intro here type there t respaced read
  obtain ⟨middle, first, rfl⟩ := parameter_ok_iff.mp read
  obtain ⟨front, again, further⟩ := keeps _ _ _ _ respaced first
  exact ⟨_, parameter_ok_iff.mpr ⟨_, again, rfl⟩, further.behindParameter⟩

/-- A list in brackets, with the bracket that opens it. -/
theorem list_respaced {item : Reader α} {opening close : Char} {allowance depth : Nat}
    {more t : Text} {xs : List α} {last : Cursor}
    (pair : (opening, close) ∈ [('<', '>'), ('\x7b', '\x7d'), ('(', ')')]) (keeps : Keeps gap item)
    (respaced : Respaced gap depth (opening :: more) t)
    (list : listUntil item close allowance ⟨more, depth + 1⟩ = .ok (xs, last)) :
    ∃ rest behind, t = opening :: rest ∧
      listUntil item close allowance ⟨rest, depth + 1⟩ = .ok (xs, ⟨behind, last.depth⟩) ∧
      Respaced gap last.leave.depth last.leave.rest behind := by
  have kind : isVisible opening = true ∧ depthBehind depth opening = depth + 1 ∧
      close ∈ [')', '>', '\x7d'] := by
    simp only [List.mem_cons, Prod.mk.injEq, List.not_mem_nil, or_false] at pair
    rcases pair with ⟨rfl, rfl⟩ | ⟨rfl, rfl⟩ | ⟨rfl, rfl⟩ <;> exact ⟨rfl, rfl, by decide⟩
  obtain ⟨rest, rfl, further⟩ := respaced.cons kind.1
  rw [kind.2.1] at further
  obtain ⟨behind, again, final⟩ :=
    keeps_listUntil kind.2.2 keeps allowance ⟨more, depth + 1⟩ xs last rest further list
  exact ⟨rest, behind, rfl, again, final⟩

theorem NameRun.respaced {base s : Text} {allowance depth : Nat} {type : DocType}
    (keepsUnion : Keeps gap union) (keepsTerm : Keeps gap term) (respaced : Respaced gap depth s t)
    (run : NameRun union term allowance base depth s type there) :
    ∃ rest, NameRun union term allowance base depth t type ⟨rest, there.depth⟩ ∧
      Respaced gap there.depth there.rest rest := by
  cases run with
  | @constant more some =>
      obtain ⟨rest, rfl, further⟩ := respaced.word [':', ':'] (by decide)
      obtain ⟨same, behind⟩ := further.takeWhile isConstantChar isPlain_of_isConstantChar
      rw [← same] at some ⊢
      exact ⟨_, .constant some, behind⟩
  | generic list some =>
      obtain ⟨rest, last, rfl, again, behind⟩ :=
        list_respaced (by decide) (keeps_typeArgument keepsUnion) respaced list
      exact ⟨last, .generic again some, behind⟩
  | shape list =>
      obtain ⟨rest, last, rfl, again, behind⟩ :=
        list_respaced (by decide) (keeps_shapeEntry keepsUnion) respaced list
      exact ⟨last, .shape again, behind⟩
  | function callable list colon read =>
      obtain ⟨rest, last, rfl, again, behind⟩ :=
        list_respaced (by decide) (keeps_parameter keepsUnion) respaced list
      replace behind := behind.separators
      rw [colon] at behind
      obtain ⟨more, marked, behind⟩ := behind.plain (by decide)
      obtain ⟨final, result, behind⟩ := keepsTerm _ _ _ _ behind.separators read
      exact ⟨final, .function callable again marked result, behind⟩
  | callable callable list noColon =>
      obtain ⟨rest, last, rfl, again, behind⟩ :=
        list_respaced (by decide) (keeps_parameter keepsUnion) respaced list
      exact ⟨last, .callable callable again (behind.separators.no_mark (by decide) noColon), behind⟩
  | name noConstant noGeneric noShape noCall =>
      refine ⟨t, .name ?_ ?_ ?_ ?_, respaced⟩
      · exact respaced.no_word [':', ':'] (by decide) noConstant
      · exact respaced.no_mark (by decide) noGeneric
      · exact respaced.no_mark (by decide) noShape
      · rintro more rfl
        obtain ⟨rest, same, -⟩ := respaced.swap.cons (by decide)
        exact noCall rest same

theorem AtomRun.respaced {s : Text} {allowance depth : Nat} {type : DocType}
    (keepsUnion : Keeps gap union) (keepsTerm : Keeps gap term) (respaced : Respaced gap depth s t)
    (run : AtomRun union term allowance depth s type there) :
    ∃ rest, AtomRun union term allowance depth t type ⟨rest, there.depth⟩ ∧
      Respaced gap there.depth there.rest rest := by
  cases run with
  | nullable read =>
      obtain ⟨rest, rfl, further⟩ := respaced.plain (by decide)
      obtain ⟨last, again, behind⟩ := keepsTerm _ _ _ _ further read
      exact ⟨last, .nullable again, behind⟩
  | group read =>
      obtain ⟨rest, rfl, further⟩ := respaced.cons (by decide)
      obtain ⟨last, again, behind⟩ := keeps_grouped keepsUnion _ _ _ _ further read
      exact ⟨last, .group again, behind⟩
  | quoted quote read =>
      obtain ⟨more, rest, rfl, again, behind⟩ := respaced.readQuoted quote read
      exact ⟨rest, .quoted quote again, behind⟩
  | number starts =>
      obtain ⟨same, behind⟩ := respaced.readNumber
      rw [← same]
      exact ⟨_, .number (respaced.startsNumber starts), behind⟩
  | @name c s type there start read =>
      obtain ⟨complete, run⟩ := named_ok_iff.mp read
      obtain ⟨more, rfl, -⟩ := respaced.plain (isPlain_of_isNameStart c start)
      obtain ⟨same, behind⟩ := respaced.readName
      obtain ⟨rest, again, further⟩ := run.respaced keepsUnion keepsTerm behind
      dsimp only at complete again
      rw [← same] at complete again
      exact ⟨rest, .name start (named_ok_iff.mpr ⟨complete, again⟩), further⟩

theorem keeps_atom (keepsUnion : Keeps gap union) (keepsTerm : Keeps gap term) (allowance : Nat) :
    Keeps gap (atom union term allowance) := by
  intro here type there t respaced read
  have run := atom_ok_iff.mp read
  obtain ⟨rest, again, behind⟩ := run.respaced keepsUnion keepsTerm respaced.atomStart
  exact ⟨rest, atom_ok_iff.mpr again, behind⟩

/-- The readers of types and of terms read the same of both texts at every allowance. -/
theorem keeps_types (gap : Gap) (allowance : Nat) :
    Keeps gap (readUnion allowance) ∧ Keeps gap (readTerm allowance) := by
  -- the two readers call each other with one less of the allowance
  induction allowance with
  | zero =>
      refine ⟨?_, ?_⟩
      · intro here type there t _ read
        cases read
      · intro here type there t _ read
        cases read
  | succ allowance ih =>
      refine ⟨?_, ?_⟩
      · rw [readUnion]
        exact keeps_alternation (keeps_conjunction ih.2 allowance) allowance
      · rw [readTerm]
        exact keeps_arrayed (keeps_atom ih.1 ih.2 allowance)

/-- A type reads the same with other white space at a place within its brackets. -/
theorem parseType_respaced {before space other behind rest : Text} {type : DocType} {depth : Nat}
    (blankSpace : Blanks space) (blankOther : Blanks other)
    (inside : placeBehind before = .code (depth + 1))
    (read : parseType (before ++ space ++ behind) = .ok (type, rest)) (taken : rest <:+ behind) :
    parseType (before ++ other ++ behind) = .ok (type, rest) := by
  have respaced := respaced_of_placeBehind ⟨space, other, behind, blankSpace, blankOther⟩ inside
  rw [List.append_assoc] at read ⊢
  generalize before ++ (space ++ behind) = s at read respaced
  generalize before ++ (other ++ behind) = t at respaced
  obtain ⟨one, blank⟩ := parseType_ok_iff.mp read
  -- both runs at an allowance that is enough for either text
  rw [← readUnion_enough 0 (Nat.le_add_right (allowanceFor s) (allowanceFor t))] at one
  obtain ⟨left, again, further⟩ := (keeps_types _ _).1 _ _ _ t respaced one
  obtain rfl := further.eq_of_suffix taken
  rw [readUnion_enough 0 (Nat.le_add_left (allowanceFor t) (allowanceFor s))] at again
  exact parseType_ok_iff.mpr ⟨again, blank⟩

/-- A shape with a gap in a condition within it, behind a bracket and a quote in a string. -/
theorem parseType_respaced_condition :
    ∃ type, parseType "array\x7b'<\\'': (A is B ? C : D)\x7d text".toList =
        .ok (type, " text".toList) ∧
      parseType "array\x7b'<\\'': (A\r\n\tis B ? C : D)\x7d text".toList =
        .ok (type, " text".toList) := by
  have read : parseType ("array\x7b'<\\'': (A".toList ++ " ".toList ++
      "is B ? C : D)\x7d text".toList) =
      .ok (.shape "array".toList [⟨some "'<\\''".toList, false,
        .conditional "A".toList false (.name "B".toList) (.name "C".toList) (.name "D".toList)⟩],
        " text".toList) := by decide +kernel
  have blankSpace : Blanks " ".toList :=
    ⟨by decide, forall_of_all (by decide), forall_of_all (by decide)⟩
  have blankOther : Blanks "\r\n\t".toList :=
    ⟨by decide, forall_of_all (by decide), forall_of_all (by decide)⟩
  have again := parseType_respaced blankSpace blankOther
    (show placeBehind "array\x7b'<\\'': (A".toList = .code (1 + 1) by decide) read
    ⟨"is B ? C : D)\x7d".toList, rfl⟩
  exact ⟨_, read, again⟩

end DocSig.DocType
