import DocSig.Proofs.DocType.Progress

/-!
The shape of the trees that reading gives, whatever text they are read from.

`WellShaped` says what the readers have seen of each construct: a name is complete, a union has
members that are no unions, a condition is about the text of another such tree. `Printable` asks
for more, since not every such tree can be told from its text. Each reader is followed once
(`Gives`), given what the readers of its parts give.
-/

set_option autoImplicit false

namespace DocSig.DocType

/-- One word that begins as a name does; white space outside of ASCII may stand in it. -/
def isWord (s : Text) : Bool := s.head?.any isNameStart && s.tail.all isNameChar

/-- A word that does not end in a backslash. -/
def isCompleteWord (s : Text) : Bool := isWord s && s.getLast? != some '\\'

/-- What the reader takes for the key of an entry. -/
def isReadKey (s : Text) : Bool := isWord s || isDigitLed s || isQuoted s

/-- The key of an entry that was read; without one the entry is not optional. -/
def EntryShaped (entry : ShapeEntry DocType) : Prop :=
  match entry.key with
  | some key => isReadKey key = true
  | none => entry.isOptional = false

/-- The trees that the readers give. -/
inductive WellShaped : DocType → Prop
  | name {s : Text} : isCompleteWord s = true → WellShaped (.name s)
  | quoted {s : Text} : isQuoted s = true → WellShaped (.literal s)
  | number {s : Text} : isNumber s = true → WellShaped (.literal s)
  | constant {name word : Text} : isCompleteWord name = true → isConstant word = true →
      WellShaped (.literal (name ++ ':' :: ':' :: word))
  | nullable {inner : DocType} : WellShaped inner → WellShaped (.nullable inner)
  | array {item : DocType} : WellShaped item → WellShaped (.array item)
  | generic {base : Text} {arguments : List DocType} : isCompleteWord base = true →
      arguments ≠ [] → (∀ argument ∈ arguments, argument ≠ star → WellShaped argument) →
      WellShaped (.generic base arguments)
  | shape {base : Text} {entries : List (ShapeEntry DocType)} : isCompleteWord base = true →
      (∀ entry ∈ entries, EntryShaped entry) → (∀ entry ∈ entries, WellShaped entry.value) →
      WellShaped (.shape base entries)
  | callable {base : Text} {parameters : List DocType} {result : Option DocType} :
      isCompleteWord base = true → isCallableName base = true →
      (∀ parameter ∈ parameters, WellShaped parameter) → (∀ type ∈ result, WellShaped type) →
      WellShaped (.callable base parameters result)
  | conditional {subject target positive negative : DocType} {negated : Bool} :
      WellShaped subject → WellShaped target → WellShaped positive → WellShaped negative →
      WellShaped (.conditional subject.text negated target positive negative)
  | union {members : List DocType} : 2 ≤ members.length →
      (∀ member ∈ members, ∀ inner, member ≠ .union inner) →
      (∀ member ∈ members, WellShaped member) → WellShaped (.union members)
  | intersection {members : List DocType} : 2 ≤ members.length →
      (∀ member ∈ members, WellShaped member) → WellShaped (.intersection members)

/-- Whatever the reader gives has a property. -/
def Gives {α : Type} (holds : α → Prop) (reader : Reader α) : Prop :=
  ∀ here x there, reader here = .ok (x, there) → holds x

theorem isWord_readName {c : Char} (s : Text) (start : isNameStart c = true) :
    isWord (readName (c :: s)).1 = true := by
  simp [readName, isWord, start, List.all_takeWhile]

theorem isDigitLed_takeWhile {c : Char} (s : Text) (digit : c.isDigit = true) :
    isDigitLed ((c :: s).takeWhile isNumberChar) = true := by
  have first : isNumberChar c = true := by
    simp [isNumberChar, Char.isAlphanum, digit]
  simp [isDigitLed, first, digit, List.all_takeWhile]

theorem readNumber_digit {c : Char} (s : Text) (digit : c.isDigit = true) :
    (readNumber (c :: s)).1 = (c :: s).takeWhile isNumberChar := by
  rw [readNumber.eq_def]
  split
  · next equal =>
      rw [(List.cons.inj equal).1] at digit
      exact absurd digit (by decide)
  · rfl

theorem isNumber_of_isDigitLed {s : Text} (led : isDigitLed s = true) : isNumber s = true := by
  unfold isNumber
  split
  · exact absurd led (by simp [isDigitLed])
  · exact led

theorem isNumber_readNumber {s : Text} (starts : startsNumber s = true) :
    isNumber (readNumber s).1 = true := by
  unfold startsNumber at starts
  split at starts
  · next c more => exact isDigitLed_takeWhile more starts
  · next c more _ =>
      rw [readNumber_digit more starts]
      exact isNumber_of_isDigitLed (isDigitLed_takeWhile more starts)
  · cases starts

/-- What is read in quotes is closed by its last character and by no other. -/
theorem closesAtEnd_readQuoted {quote : Char} {s body rest : Text} (plain : quote ≠ '\\')
    (read : Text.readQuoted quote s = some (body, rest)) :
    Text.closesAtEnd quote body = true := by
  fun_induction Text.readQuoted quote s generalizing body with
  | case1 => cases read
  | case2 c s ih =>
      obtain ⟨⟨inner, tail⟩, found, equal⟩ := Option.map_eq_some_iff.mp read
      cases equal
      simpa [Text.closesAtEnd] using ih found
  | case3 s _ =>
      cases read
      rw [Text.closesAtEnd.eq_def]
      split <;> simp_all
  | case4 c s escaped other ih =>
      obtain ⟨⟨inner, tail⟩, found, equal⟩ := Option.map_eq_some_iff.mp read
      cases equal
      have closed := ih found
      -- a backslash here would be the last character, with no closing quote behind it
      have noMark : c ≠ '\\' := by
        rintro rfl
        cases s with
        | nil => cases found
        | cons d s => exact escaped d s rfl rfl
      rw [Text.closesAtEnd.eq_def]
      split <;> simp_all

theorem isQuoted_readQuoted {quote : Char} {s body rest : Text} (mark : quote = '\'' ∨ quote = '"')
    (read : Text.readQuoted quote s = some (body, rest)) : isQuoted (quote :: body) = true := by
  have plain : quote ≠ '\\' := by rcases mark with rfl | rfl <;> decide
  exact (isQuoted_iff _).mpr ⟨quote, body, rfl, mark, closesAtEnd_readQuoted plain read⟩

theorem isReadKey_readKey {s key rest : Text} (read : readKey s = some (key, rest)) :
    isReadKey key = true := by
  unfold readKey at read
  split at read
  · cases read
  · next c s =>
      split at read
      · next quote =>
          obtain ⟨⟨body, tail⟩, found, equal⟩ := Option.map_eq_some_iff.mp read
          cases equal
          simp [isReadKey, isQuoted_readQuoted quote found]
      · split at read
        · next digit =>
            have equal : (readNumber (c :: s)).1 = key := congrArg Prod.fst (Option.some.inj read)
            rw [← equal, readNumber_digit s digit]
            simp [isReadKey, isDigitLed_takeWhile s digit]
        · split at read
          · next start =>
              have equal : (readName (c :: s)).1 = key := congrArg Prod.fst (Option.some.inj read)
              rw [← equal]
              simp [isReadKey, isWord_readName s start]
          · cases read

theorem isReadKey_readKeyed {s key rest : Text} {isOptional : Bool}
    (read : readKeyed s = some (key, isOptional, rest)) : isReadKey key = true := by
  unfold readKeyed at read
  split at read
  · cases read
  · next word behind found =>
      have kind := isReadKey_readKey found
      split at read
      · split at read
        · cases read
          exact kind
        · cases read
      · cases read
        exact kind
      · cases read

theorem memberText_ne_nil {type : DocType} (visible : type.text ≠ []) : type.memberText ≠ [] := by
  unfold memberText parenthesizedIf
  split
  · simp
  · exact visible

/-- The text of a tree that was read is not empty. -/
theorem WellShaped.text_ne_nil {type : DocType} (shaped : WellShaped type) : type.text ≠ [] := by
  induction shaped with
  | name word =>
      rintro (empty : _ = [])
      subst empty
      cases word
  | quoted word =>
      rintro (empty : _ = [])
      subst empty
      cases word
  | number word =>
      rintro (empty : _ = [])
      subst empty
      cases word
  | @union members several _ _ ih =>
      match members, several with
      | first :: second :: others, _ =>
          rw [union_text]
          exact List.append_ne_nil_of_left_ne_nil (memberText_ne_nil (ih first (by simp))) _
  | @intersection members several _ ih =>
      match members, several with
      | first :: second :: others, _ =>
          rw [intersection_text]
          exact List.append_ne_nil_of_left_ne_nil (memberText_ne_nil (ih first (by simp))) _
  -- all others have a mark of their own
  | nullable | conditional =>
      rw [text]
      exact List.cons_ne_nil _ _
  | constant | array | generic | shape | callable =>
      rw [text]
      exact List.append_ne_nil_of_right_ne_nil _ (List.cons_ne_nil _ _)

theorem alternatives_ne_nil {type : DocType} (shaped : WellShaped type) :
    type.alternatives ≠ [] := by
  cases shaped with
  | union several _ _ =>
      rintro empty
      rw [alternatives] at empty
      rw [empty] at several
      cases several
  | _ => simp [alternatives]

/-- The members that a member of a union gives it. -/
theorem alternatives_shaped {type : DocType} (shaped : WellShaped type) :
    ∀ member ∈ type.alternatives, WellShaped member ∧ ∀ inner, member ≠ .union inner := by
  intro member found
  unfold alternatives at found
  split at found
  · next members =>
      cases shaped with
      | union _ plain shapes => exact ⟨shapes member found, plain member found⟩
  · next plain =>
      rw [List.mem_singleton.mp found]
      exact ⟨shaped, plain⟩

theorem unionOf_shaped {first : DocType} {others : List DocType} (shaped : WellShaped first)
    (shapes : ∀ type ∈ others, WellShaped type) : WellShaped (unionOf first others) := by
  unfold unionOf
  split
  · exact shaped
  · next several =>
      cases others with
      | nil => exact absurd rfl several
      | cons second others =>
          have all : ∀ type ∈ first :: second :: others, WellShaped type :=
            List.forall_mem_cons.mpr ⟨shaped, shapes⟩
          have members : ∀ member ∈ (first :: second :: others).flatMap alternatives,
              WellShaped member ∧ ∀ inner, member ≠ .union inner := by
            intro member found
            obtain ⟨type, inside, given⟩ := List.mem_flatMap.mp found
            exact alternatives_shaped (all type inside) member given
          refine .union ?_ (fun member found => (members member found).2)
            (fun member found => (members member found).1)
          have one := List.length_pos_iff.mpr (alternatives_ne_nil shaped)
          have two :=
            List.length_pos_iff.mpr (alternatives_ne_nil (shapes second List.mem_cons_self))
          simp only [List.flatMap_cons, List.length_append]
          omega

theorem intersectionOf_shaped {first : DocType} {others : List DocType} (shaped : WellShaped first)
    (shapes : ∀ type ∈ others, WellShaped type) : WellShaped (intersectionOf first others) := by
  unfold intersectionOf
  split
  · exact shaped
  · next several =>
      cases others with
      | nil => exact absurd rfl several
      | cons second others =>
          exact .intersection (by simp) (List.forall_mem_cons.mpr ⟨shaped, shapes⟩)

/-- Two readers one after the other. -/
theorem gives_then {α β γ : Type} {holdsFirst : α → Prop} {holdsSecond : β → Prop}
    {holds : γ → Prop} {first : Reader α} {second : Reader β} (combine : α → β → γ)
    (givesFirst : Gives holdsFirst first) (givesSecond : Gives holdsSecond second)
    (joins : ∀ x y, holdsFirst x → holdsSecond y → holds (combine x y)) :
    Gives holds fun here => do
      let (x, here) ← first here
      let (y, here) ← second here
      return (combine x y, here) := by
  intro here z there read
  obtain ⟨⟨x, middle⟩, one, next⟩ := bind_eq_ok.mp read
  obtain ⟨⟨y, last⟩, two, final⟩ := bind_eq_ok.mp next
  cases final
  exact joins x y (givesFirst _ _ _ one) (givesSecond _ _ _ two)

theorem gives_moreAlternatives {member : Reader DocType} (gives : Gives WellShaped member)
    (allowance : Nat) :
    Gives (fun types => ∀ type ∈ types, WellShaped type) (moreAlternatives member allowance) := by
  induction allowance with
  | zero =>
      intro here types there read
      cases read
  | succ allowance ih =>
      intro here types there read
      cases moreAlternatives_ok_iff.mp read with
      | joined mark some first next =>
          exact List.forall_mem_cons.mpr ⟨gives _ _ _ first, ih _ _ _ next⟩
      | ends stop => exact List.forall_mem_nil _

theorem gives_moreConjuncts {member : Reader DocType} (gives : Gives WellShaped member)
    (allowance : Nat) :
    Gives (fun types => ∀ type ∈ types, WellShaped type) (moreConjuncts member allowance) := by
  induction allowance with
  | zero =>
      intro here types there read
      cases read
  | succ allowance ih =>
      intro here types there read
      cases moreConjuncts_ok_iff.mp read with
      | joined mark goesOn first next =>
          exact List.forall_mem_cons.mpr ⟨gives _ _ _ first, ih _ _ _ next⟩
      | ends stop => exact List.forall_mem_nil _

theorem gives_alternation {member : Reader DocType} (gives : Gives WellShaped member)
    (allowance : Nat) : Gives WellShaped (alternation member allowance) :=
  gives_then unionOf gives (gives_moreAlternatives gives allowance) fun _ _ => unionOf_shaped

theorem gives_conjunction {member : Reader DocType} (gives : Gives WellShaped member)
    (allowance : Nat) : Gives WellShaped (conjunction member allowance) :=
  gives_then intersectionOf gives (gives_moreConjuncts gives allowance) fun _ _ =>
    intersectionOf_shaped

theorem gives_listUntil {α : Type} {holds : α → Prop} {item : Reader α} (gives : Gives holds item)
    (close : Char) (allowance : Nat) :
    Gives (fun items => ∀ x ∈ items, holds x) (listUntil item close allowance) := by
  induction allowance with
  | zero =>
      intro here items there read
      cases read
  | succ allowance ih =>
      intro here items there read
      cases listUntil_ok_iff.mp read with
      | closed mark => exact List.forall_mem_nil _
      | more goesOn first comma next =>
          exact List.forall_mem_cons.mpr ⟨gives _ _ _ first, ih _ _ _ next⟩
      | last goesOn first noComma ended =>
          exact List.forall_mem_cons.mpr ⟨gives _ _ _ first, List.forall_mem_nil _⟩

theorem wrapArrays_shaped {type : DocType} (shaped : WellShaped type) (s : Text) :
    WellShaped (wrapArrays type s).1 := by
  fun_induction wrapArrays type s with
  | case1 type rest ih => exact ih (.array shaped)
  | case2 type rest _ => exact shaped

theorem gives_arrayed {atom : Reader DocType} (gives : Gives WellShaped atom) :
    Gives WellShaped (arrayed atom) := by
  intro here type there read
  obtain ⟨inner, middle, one, wrapped, -⟩ := arrayed_ok_iff.mp read
  have shaped := wrapArrays_shaped (gives _ _ _ one) middle.rest
  rwa [wrapped] at shaped

theorem gives_grouped {union : Reader DocType} (gives : Gives WellShaped union) :
    Gives WellShaped (grouped union) := by
  intro here type there read
  cases grouped_ok_iff.mp read with
  | plain first noWord close => exact gives _ _ _ first
  | condition first word two mark three colon four close =>
      exact .conditional (gives _ _ _ first) (gives _ _ _ two) (gives _ _ _ three)
        (gives _ _ _ four)

theorem gives_typeArgument {union : Reader DocType} (gives : Gives WellShaped union) :
    Gives (fun type => type ≠ star → WellShaped type) (typeArgument union) := by
  intro here type there read
  cases typeArgument_ok_iff.mp read with
  | star mark => exact fun other => absurd rfl other
  | type noStar read => exact fun _ => gives _ _ _ read

theorem gives_shapeEntry {union : Reader DocType} (gives : Gives WellShaped union) :
    Gives (fun given => ∀ entry ∈ given, EntryShaped entry ∧ WellShaped entry.value)
      (shapeEntry union) := by
  intro here given there read entry same
  cases shapeEntry_ok_iff.mp read with
  | dots mark => cases same
  | keyed noDots found read =>
      cases same
      exact ⟨isReadKey_readKeyed found, gives _ _ _ read⟩
  | bare noDots noKey read =>
      cases same
      exact ⟨rfl, gives _ _ _ read⟩

theorem gives_parameter {union : Reader DocType} (gives : Gives WellShaped union) :
    Gives WellShaped (parameter union) := by
  intro here type there read
  obtain ⟨middle, one, -⟩ := parameter_ok_iff.mp read
  exact gives _ _ _ one

/-- What is read from a text that begins as a name does. -/
theorem named_shaped {union term : Reader DocType} (givesUnion : Gives WellShaped union)
    (givesTerm : Gives WellShaped term) (allowance : Nat) {c : Char} {s : Text} {depth : Nat}
    {type : DocType} {there : Cursor} (start : isNameStart c = true)
    (read : named union term allowance ⟨c :: s, depth⟩ = .ok (type, there)) : WellShaped type := by
  have word := isWord_readName s start
  obtain ⟨complete, run⟩ := named_ok_iff.mp read
  dsimp only at complete run
  generalize readName (c :: s) = found at word complete run
  obtain ⟨base, rest⟩ := found
  have name : isCompleteWord base = true :=
    Bool.and_eq_true_iff.mpr ⟨word, bne_iff_ne.mpr complete⟩
  dsimp only at run
  cases run with
  | constant some =>
      refine .constant name ?_
      simpa [isConstant, List.all_takeWhile] using some
  | generic list some =>
      exact .generic name some
        (gives_listUntil (gives_typeArgument givesUnion) '>' allowance _ _ _ list)
  | @shape _ entries _ list =>
      have shaped : ∀ entry ∈ entries.filterMap id, EntryShaped entry ∧ WellShaped entry.value := by
        intro entry found
        obtain ⟨given, inside, same⟩ := List.mem_filterMap.mp found
        exact gives_listUntil (gives_shapeEntry givesUnion) '\x7d' allowance _ _ _ list given inside
          entry same
      exact .shape name (fun entry found => (shaped entry found).1)
        (fun entry found => (shaped entry found).2)
  | function callable list colon read =>
      refine .callable name callable
        (gives_listUntil (gives_parameter givesUnion) ')' allowance _ _ _ list) ?_
      intro type same
      cases same
      exact givesTerm _ _ _ read
  | callable callable list noColon =>
      exact .callable name callable
        (gives_listUntil (gives_parameter givesUnion) ')' allowance _ _ _ list) nofun
  | name noConstant noGeneric noShape noCall => exact .name name

theorem gives_atom {union term : Reader DocType} (givesUnion : Gives WellShaped union)
    (givesTerm : Gives WellShaped term) (allowance : Nat) :
    Gives WellShaped (atom union term allowance) := by
  intro here type there read
  replace read := atom_ok_iff.mp read
  generalize atomStart here = start at read
  cases read with
  | nullable read => exact .nullable (givesTerm _ _ _ read)
  | group read => exact gives_grouped givesUnion _ _ _ read
  | quoted quote read => exact .quoted (isQuoted_readQuoted quote read)
  | number starts => exact .number (isNumber_readNumber starts)
  | name start read => exact named_shaped givesUnion givesTerm allowance start read

/-- The readers of types and of terms give well-shaped trees at every allowance. -/
theorem gives_types (allowance : Nat) :
    Gives WellShaped (readUnion allowance) ∧ Gives WellShaped (readTerm allowance) := by
  -- the two readers call each other with one less of the allowance
  induction allowance with
  | zero =>
      refine ⟨?_, ?_⟩
      · intro here type there read
        cases read
      · intro here type there read
        cases read
  | succ allowance ih =>
      refine ⟨?_, ?_⟩
      · rw [readUnion]
        exact gives_alternation (gives_conjunction ih.2 allowance) allowance
      · rw [readTerm]
        exact gives_arrayed (gives_atom ih.1 ih.2 allowance)

/-- A tree that is read from a text is well shaped. -/
theorem wellShaped_of_parseType {s rest : Text} {type : DocType}
    (read : parseType s = .ok (type, rest)) : WellShaped type := by
  obtain ⟨⟨found, there⟩, one, final⟩ := bind_eq_ok.mp read
  have shaped := (gives_types _).1 _ _ _ one
  dsimp only at final
  split at final
  · cases final
    exact shaped
  · split at final
    · cases final
      exact shaped
    · cases final

end DocSig.DocType
