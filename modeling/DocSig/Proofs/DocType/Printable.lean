import DocSig.DocType.Basic
import DocSig.Proofs.DocType.Words

/-!
The type expressions whose canonical text says all of them, and how such a text begins.

`Printable` leaves out what the text cannot show: an intersection right below a `?`, an unkeyed
entry that begins with a constant, and the like. `Opening` is the first word of a text together
with what may stand behind it.
-/

set_option autoImplicit false

namespace DocSig.DocType

/-- A type whose text ends in the parameter list of a callable, so that a `:` behind it would
begin a result. -/
inductive EndsInParameters : DocType → Prop
  | callable (base : Text) (parameters : List DocType) :
      EndsInParameters (.callable base parameters none)
  | result {result : DocType} (base : Text) (parameters : List DocType) :
      EndsInParameters result → EndsInParameters (.callable base parameters (some result))
  | nullable {inner : DocType} : EndsInParameters inner → EndsInParameters (.nullable inner)
  | union {last : DocType} (members : List DocType) :
      last.isCompound = false → EndsInParameters last →
      EndsInParameters (.union (members ++ [last]))
  | intersection {last : DocType} (members : List DocType) :
      last.isCompound = false → EndsInParameters last →
      EndsInParameters (.intersection (members ++ [last]))

/-- A type whose last part would take a `[]` that is written behind it. -/
def takesArrays : DocType → Bool
  | .nullable _ | .union _ | .intersection _ | .callable _ _ (some _) => true
  | _ => false

/-- A text whose first whole name is `word`. -/
def LedBy (word s : Text) : Prop := ∃ rest, s = word ++ rest ∧ StopsAt isNameChar rest

/-- A text that begins with a name and `::`. -/
def LedByConstant (s : Text) : Prop :=
  ∃ name rest, isName name = true ∧ s = name ++ ':' :: ':' :: rest

theorem ledByConstant_iff (s : Text) :
    LedByConstant s ↔
      isName (readName s).1 = true ∧ "::".toList.isPrefixOf (readName s).2 = true := by
  constructor
  · rintro ⟨name, rest, named, rfl⟩
    rw [readName_append name _ named (by simp; decide)]
    exact ⟨named, rfl⟩
  · rintro ⟨named, front⟩
    obtain ⟨rest, equal⟩ := List.isPrefixOf_iff_prefix.mp front
    refine ⟨(readName s).1, rest, named, ?_⟩
    conv_lhs => rw [← readName_split s, ← equal]
    rfl

instance (s : Text) : Decidable (LedByConstant s) := decidable_of_iff' _ (ledByConstant_iff s)

/-- The text of a member of a union or an intersection. -/
def memberText (type : DocType) : Text := parenthesizedIf type.isCompound type.text

/-- The star that stands for any argument of a generic type. -/
def star : DocType := .name ['*']

/-- What the key of an entry has to be; without one the value may not look like an entry that
has a key. -/
def EntryFits (entry : ShapeEntry DocType) : Prop :=
  match entry.key with
  | some key => isKey key = true
  | none => entry.isOptional = false ∧ ¬ LedByConstant entry.value.text

/-- The types that their text tells apart from all others. -/
inductive Printable : DocType → Prop
  | name {s : Text} : isName s = true → Printable (.name s)
  | quoted {s : Text} : isQuoted s = true → Printable (.literal s)
  | number {s : Text} : isNumber s = true → Printable (.literal s)
  | constant {name word : Text} : isName name = true → isConstant word = true →
      Printable (.literal (name ++ ':' :: ':' :: word))
  | nullable {inner : DocType} : inner.isCompound = false → Printable inner →
      Printable (.nullable inner)
  | array {item : DocType} :
      (∀ base parameters result, item ≠ .callable base parameters (some result)) →
      Printable item → Printable (.array item)
  | generic {base : Text} {arguments : List DocType} : isName base = true → arguments ≠ [] →
      (∀ argument ∈ arguments, argument ≠ star → Printable argument) →
      Printable (.generic base arguments)
  | shape {base : Text} {entries : List (ShapeEntry DocType)} : isName base = true →
      (∀ entry ∈ entries, EntryFits entry) → (∀ entry ∈ entries, Printable entry.value) →
      Printable (.shape base entries)
  | callable {base : Text} {parameters : List DocType} {result : Option DocType} :
      isName base = true → isCallableName base = true →
      (∀ type ∈ result, type.isCompound = false) →
      (∀ parameter ∈ parameters, Printable parameter) → (∀ type ∈ result, Printable type) →
      Printable (.callable base parameters result)
  | conditional {subject target positive negative : DocType} {negated : Bool} :
      (negated = false → ¬ LedBy "not".toList target.text) → ¬ EndsInParameters positive →
      Printable subject → Printable target → Printable positive → Printable negative →
      Printable (.conditional subject.text negated target positive negative)
  | union {members : List DocType} : 2 ≤ members.length →
      (∀ member ∈ members, ∀ inner, member ≠ .union inner) →
      (∀ member ∈ members, Printable member) → Printable (.union members)
  | intersection {members : List DocType} : 2 ≤ members.length →
      (∀ member ∈ members.tail, member.memberText.head? ≠ some '$') →
      (∀ member ∈ members, Printable member) → Printable (.intersection members)

/-- What may stand behind the first word of a type, if anything does: `[]`, `|` or `&`. -/
def Joined (tail : Text) : Prop := ∀ c ∈ tail.head?, c = '[' ∨ c = '|' ∨ c = '&'

/-- What may stand behind a name: as for any word, or brackets, or a constant. -/
def Extended (tail : Text) : Prop :=
  (∀ c ∈ tail.head?, c = '[' ∨ c = '|' ∨ c = '&' ∨ c = '<' ∨ c = '\x7b' ∨ c = '(') ∨
    ∃ more, tail = ':' :: ':' :: more

/-- A text by its first word. -/
inductive Opening : Text → Prop
  | mark (c : Char) (more : Text) : c = '?' ∨ c = '(' → Opening (c :: more)
  | quoted (word tail : Text) : isQuoted word = true → Joined tail → Opening (word ++ tail)
  | number (word tail : Text) : isNumber word = true → Joined tail → Opening (word ++ tail)
  | name (word tail : Text) : isName word = true → Extended tail → Opening (word ++ tail)

theorem Joined.append {tail more : Text} (joined : Joined tail) (next : Joined more) :
    Joined (tail ++ more) := by
  cases tail with
  | nil => exact next
  | cons c tail => exact joined

theorem Extended.append {tail more : Text} (extended : Extended tail) (next : Joined more) :
    Extended (tail ++ more) := by
  rcases extended with heads | ⟨rest, rfl⟩
  · left
    cases tail with
    | nil =>
        intro c found
        rcases next c found with h | h | h
        · exact Or.inl h
        · exact Or.inr (Or.inl h)
        · exact Or.inr (Or.inr (Or.inl h))
    | cons c tail => exact heads
  · exact Or.inr ⟨rest ++ more, rfl⟩

theorem Opening.append {s more : Text} (opening : Opening s) (next : Joined more) :
    Opening (s ++ more) := by
  cases opening with
  | mark c rest kind => exact .mark c (rest ++ more) kind
  | quoted word tail quoted joined =>
      rw [List.append_assoc]
      exact .quoted word _ quoted (joined.append next)
  | number word tail number joined =>
      rw [List.append_assoc]
      exact .number word _ number (joined.append next)
  | name word tail name extended =>
      rw [List.append_assoc]
      exact .name word _ name (extended.append next)

theorem joined_nil : Joined [] := by
  intro c found
  cases found

theorem joined_cons {c : Char} (more : Text) (kind : c = '[' ∨ c = '|' ∨ c = '&') :
    Joined (c :: more) := by
  intro d found
  cases found
  exact kind

theorem opening_memberText {type : DocType} (opening : Opening type.text) :
    Opening type.memberText := by
  unfold memberText parenthesizedIf
  split
  · exact .mark '(' _ (Or.inr rfl)
  · exact opening

theorem union_text (first : DocType) (others : List DocType) :
    (DocType.union (first :: others)).text =
      first.memberText ++ others.flatMap fun type => '|' :: type.memberText := by
  rw [text, memberTexts_eq_map, List.map_cons, Text.join_cons, List.flatMap_map]
  rfl

theorem intersection_text (first : DocType) (others : List DocType) :
    (DocType.intersection (first :: others)).text =
      first.memberText ++ others.flatMap fun type => '&' :: type.memberText := by
  rw [text, memberTexts_eq_map, List.map_cons, Text.join_cons, List.flatMap_map]
  rfl

theorem array_text (item : DocType) :
    (DocType.array item).text = parenthesizedIf item.needsParentheses item.text ++ ['[', ']'] := by
  rw [text]

/-- Every text of a printable type begins with a word, a `?` or a `(`. -/
theorem opening_text {type : DocType} (printable : Printable type) : Opening type.text := by
  induction printable with
  | name word => simpa [text] using Opening.name _ [] word (Or.inl (by simp))
  | quoted word => simpa [text] using Opening.quoted _ [] word joined_nil
  | number word => simpa [text] using Opening.number _ [] word joined_nil
  | constant word _ =>
      rw [text]
      exact .name _ _ word (Or.inr ⟨_, rfl⟩)
  | nullable _ _ _ =>
      rw [text]
      exact .mark '?' _ (Or.inl rfl)
  | array _ _ ih =>
      rw [array_text]
      refine Opening.append ?_ (joined_cons _ (Or.inl rfl))
      unfold parenthesizedIf
      split
      · exact .mark '(' _ (Or.inr rfl)
      · exact ih
  | generic base _ _ _ =>
      rw [text]
      exact .name _ _ base (Or.inl (by simp))
  | shape base _ _ _ =>
      rw [text]
      exact .name _ _ base (Or.inl (by simp))
  | callable base _ _ _ _ _ _ =>
      rw [text]
      exact .name _ _ base (Or.inl (by simp))
  | conditional _ _ _ _ _ _ _ _ _ _ =>
      rw [text]
      exact .mark '(' _ (Or.inr rfl)
  | @union members many _ _ ih =>
      match members, many with
      | first :: second :: others, _ =>
          rw [union_text]
          exact (opening_memberText (ih first (by simp))).append (joined_cons _ (by simp))
  | @intersection members many _ _ ih =>
      match members, many with
      | first :: second :: others, _ =>
          rw [intersection_text]
          exact (opening_memberText (ih first (by simp))).append (joined_cons _ (by simp))

end DocSig.DocType
