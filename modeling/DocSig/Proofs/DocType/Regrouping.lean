import DocSig.DocType.Equality
import DocSig.Proofs.DocType.RoundTrip
import DocSig.Proofs.DocType.Shape

/-!
Reading canonical text again.

The canonical text has no parentheses around what stands behind a `?` or is the result of a
callable. So `?` before a union is read again as a mark of its first member alone, and `[]` behind
a callable as part of its result: the text is grouped in another way (`regrouped`). For most trees
the other tree has the same text (`Regroups`), so that reading it again changes nothing more
(`parseType_regrouped`); but an intersection that comes out of its place has to be written in
parentheses, a member that begins with `$` is taken for a variable, and so on.
-/

set_option autoImplicit false

namespace DocSig.DocType

/-- The members of an intersection, or the type itself as the only one. -/
def conjuncts : DocType → List DocType
  | .intersection members => members
  | type => [type]

/-- The first of the types that `|` or `&` joins, or the type itself. -/
def firstPart : DocType → DocType
  | .union (first :: _) | .intersection (first :: _) => first
  | type => type

/-- What is written before a type goes to its first part. -/
def onFirstPart (wrap : DocType → DocType) : DocType → DocType
  | .union (first :: others) => .union (wrap first :: others)
  | .intersection (first :: others) => .intersection (wrap first :: others)
  | type => wrap type

mutual

/-- A `[]` that is written behind a type goes to its last part. -/
def arrayedAtEnd : DocType → DocType
  | .nullable inner => .nullable (arrayedAtEnd inner)
  | .callable base parameters (some result) =>
    .callable base parameters (some (arrayedAtEnd result))
  | .union members => .union (arrayedLast members)
  | .intersection members => .intersection (arrayedLast members)
  | type => .array type

/-- A `[]` that is written behind the members of a union or an intersection. -/
def arrayedLast : List DocType → List DocType
  | [] => []
  | [type] => [if type.isCompound then .array type else arrayedAtEnd type]
  | type :: next :: types => type :: arrayedLast (next :: types)

end

mutual

/-- The tree that the text of a type is read as. -/
def regrouped : DocType → DocType
  | .nullable inner => onFirstPart .nullable (regrouped inner)
  | .array item =>
    if item.needsParentheses then .array (regrouped item) else arrayedAtEnd (regrouped item)
  | .generic base arguments => .generic base (regroupedAll arguments)
  | .shape base entries => .shape base (regroupedEntries entries)
  | .callable base parameters none => .callable base (regroupedAll parameters) none
  | .callable base parameters (some result) =>
    onFirstPart (fun result => .callable base (regroupedAll parameters) (some result))
      (regrouped result)
  | .conditional subject negated target positive negative =>
    .conditional subject negated (regrouped target) (regrouped positive) (regrouped negative)
  | .union members => .union ((regroupedAll members).flatMap alternatives)
  | .intersection members => .intersection (regroupedConjuncts members)
  | type => type

def regroupedAll : List DocType → List DocType
  | [] => []
  | type :: types => regrouped type :: regroupedAll types

def regroupedConjuncts : List DocType → List DocType
  | [] => []
  | type :: types =>
    (if type.isCompound then [regrouped type] else (regrouped type).conjuncts) ++
      regroupedConjuncts types

def regroupedEntries : List (ShapeEntry DocType) → List (ShapeEntry DocType)
  | [] => []
  | ⟨key, isOptional, value⟩ :: entries =>
    ⟨key, isOptional, regrouped value⟩ :: regroupedEntries entries

end

theorem regroupedAll_eq_map (types : List DocType) : regroupedAll types = types.map regrouped := by
  induction types with
  | nil => rfl
  | cons type types ih => simp [regroupedAll, ih]

theorem regroupedConjuncts_eq_flatMap (types : List DocType) :
    regroupedConjuncts types = types.flatMap fun type =>
      if type.isCompound then [regrouped type] else (regrouped type).conjuncts := by
  induction types with
  | nil => rfl
  | cons type types ih => simp [regroupedConjuncts, ih]

theorem regroupedEntries_eq_map (entries : List (ShapeEntry DocType)) :
    regroupedEntries entries = entries.map fun entry =>
      ⟨entry.key, entry.isOptional, regrouped entry.value⟩ := by
  induction entries with
  | nil => rfl
  | cons entry entries ih => simp [regroupedEntries, ih]

/-- A text in which no white space stands. -/
def isSolid (s : Text) : Bool := s.all fun c => !isBlank c

/-- The types whose text, read again, gives that text: what is read with another grouping is
written without parentheses in both, and nothing in the text is read as something else. -/
inductive Regroups : DocType → Prop
  | name {s : Text} : isSolid s = true → Regroups (.name s)
  | literal {s : Text} : isQuoted s = true ∨ isSolid s = true → Regroups (.literal s)
  | nullable {inner : DocType} : (regrouped inner).firstPart.isCompound = false →
      Regroups inner → Regroups (.nullable inner)
  | array {item : DocType} : Regroups item → Regroups (.array item)
  | generic {base : Text} {arguments : List DocType} : isSolid base = true →
      (∀ argument ∈ arguments, argument ≠ star → Regroups argument) →
      Regroups (.generic base arguments)
  | shape {base : Text} {entries : List (ShapeEntry DocType)} : isSolid base = true →
      (∀ entry ∈ entries, EntryFits entry) → (∀ entry ∈ entries, Regroups entry.value) →
      Regroups (.shape base entries)
  | callable {base : Text} {parameters : List DocType} {result : Option DocType} :
      isSolid base = true → (∀ type ∈ result, (regrouped type).firstPart.isCompound = false) →
      (∀ parameter ∈ parameters, Regroups parameter) → (∀ type ∈ result, Regroups type) →
      Regroups (.callable base parameters result)
  | conditional {subject target positive negative : DocType} {negated : Bool} :
      (negated = false → ¬ LedBy "not".toList target.text) →
      ¬ EndsInParameters (regrouped positive) → Printable subject → Regroups target →
      Regroups positive → Regroups negative →
      Regroups (.conditional subject.text negated target positive negative)
  | union {members : List DocType} :
      (∀ member ∈ members, member.isCompound = false →
        ∀ inner, regrouped member ≠ .intersection inner) →
      (∀ member ∈ members, Regroups member) → Regroups (.union members)
  | intersection {members : List DocType} :
      (∀ member ∈ members, member.isCompound = false →
        ∀ inner, regrouped member ≠ .union inner) →
      (∀ member ∈ members.tail, member.memberText.head? ≠ some '$') →
      (∀ member ∈ members, Regroups member) → Regroups (.intersection members)

theorem isName_of_isCompleteWord {s : Text} (word : isCompleteWord s = true)
    (solid : isSolid s = true) : isName s = true := by
  simp only [isCompleteWord, isWord, isSolid, isName, Bool.and_eq_true] at word solid ⊢
  exact ⟨word, solid⟩

theorem memberText_simple {type : DocType} (simple : type.isCompound = false) :
    type.memberText = type.text := by
  simp [memberText, parenthesizedIf, simple]

section

variable {wrap : DocType → DocType} {type : DocType}

theorem text_onFirstPart (front : Text) (simple : ∀ inner, (wrap inner).isCompound = false)
    (texts : ∀ inner, (wrap inner).text = front ++ inner.text)
    (plain : type.firstPart.isCompound = false) :
    (onFirstPart wrap type).text = front ++ type.text := by
  have first : ∀ inner : DocType, inner.isCompound = false →
      (wrap inner).memberText = front ++ inner.memberText := by
    intro inner simply
    rw [memberText_simple (simple inner), memberText_simple simply, texts]
  unfold onFirstPart
  split
  · next inner others => rw [union_text, union_text, first inner plain, List.append_assoc]
  · next inner others =>
      rw [intersection_text, intersection_text, first inner plain, List.append_assoc]
  · exact texts type

theorem printable_onFirstPart (simple : ∀ inner, (wrap inner).isCompound = false)
    (wraps : ∀ inner, inner.isCompound = false → Printable inner → Printable (wrap inner))
    (plain : type.firstPart.isCompound = false) (printable : Printable type) :
    Printable (onFirstPart wrap type) := by
  unfold onFirstPart
  split
  · next first others =>
      cases printable with
      | union many flat members =>
          obtain ⟨here, later⟩ := List.forall_mem_cons.mp members
          refine .union many ?_ (List.forall_mem_cons.mpr ⟨wraps first plain here, later⟩)
          refine List.forall_mem_cons.mpr ⟨?_, (List.forall_mem_cons.mp flat).2⟩
          intro inner same
          have compound := simple first
          rw [same] at compound
          cases compound
  · next first others =>
      cases printable with
      | intersection many heads members =>
          obtain ⟨here, later⟩ := List.forall_mem_cons.mp members
          exact .intersection many heads
            (List.forall_mem_cons.mpr ⟨wraps first plain here, later⟩)
  · next noUnion noIntersection =>
      refine wraps type ?_ printable
      cases type with
      | union members =>
          cases members with
          | nil => exact plain
          | cons first others => exact absurd rfl (noUnion first others)
      | intersection members =>
          cases members with
          | nil => exact plain
          | cons first others => exact absurd rfl (noIntersection first others)
      | _ => rfl

end

/-- The last part of a type with a `[]` behind it. -/
def arrayedPart (type : DocType) : DocType :=
  if type.isCompound then .array type else arrayedAtEnd type

theorem arrayedLast_concat (types : List DocType) (last : DocType) :
    arrayedLast (types ++ [last]) = types ++ [arrayedPart last] := by
  induction types with
  | nil => rfl
  | cons type types ih =>
      cases types with
      | nil => rfl
      | cons next types => simpa [arrayedLast] using ih

theorem arrayedPart_simple (type : DocType) : (arrayedPart type).isCompound = false := by
  cases type with
  | callable base parameters result => cases result <;> rfl
  | _ => rfl

theorem memberText_arrayedPart {type : DocType}
    (text : (arrayedAtEnd type).text = type.text ++ ['[', ']']) :
    (arrayedPart type).memberText = type.memberText ++ ['[', ']'] := by
  rw [memberText_simple (arrayedPart_simple type)]
  cases compound : type.isCompound with
  | false =>
      rw [memberText_simple compound, ← text]
      simp [arrayedPart, compound]
  | true =>
      have marked : type.needsParentheses = true := by
        cases type <;> first | rfl | cases compound
      simp [arrayedPart, compound, memberText, array_text, marked]

theorem join_concat (separator part tail : Text) (parts : List Text) :
    Text.join separator (parts ++ [part ++ tail]) =
      Text.join separator (parts ++ [part]) ++ tail := by
  cases parts with
  | nil => simp [Text.join_cons]
  | cons first others => simp [Text.join_cons]

/-- The members of a chain with a `[]` behind the last one. -/
theorem join_arrayedLast (separator : Text) {members : List DocType} (some : members ≠ [])
    (texts : ∀ member ∈ members, (arrayedAtEnd member).text = member.text ++ ['[', ']']) :
    Text.join separator ((arrayedLast members).map memberText) =
      Text.join separator (members.map memberText) ++ ['[', ']'] := by
  obtain ⟨front, last, rfl⟩ := List.eq_nil_or_concat members |>.resolve_left some
  rw [List.concat_eq_append] at texts ⊢
  rw [arrayedLast_concat, List.map_append, List.map_append, List.map_singleton, List.map_singleton,
    memberText_arrayedPart (texts last (by simp)), join_concat]

theorem union_text_eq_join (members : List DocType) :
    (DocType.union members).text = Text.join ['|'] (members.map memberText) := by
  rw [text, memberTexts_eq_map]
  rfl

theorem intersection_text_eq_join (members : List DocType) :
    (DocType.intersection members).text = Text.join ['&'] (members.map memberText) := by
  rw [text, memberTexts_eq_map]
  rfl

theorem ne_nil_of_many {members : List DocType} (many : 2 ≤ members.length) : members ≠ [] := by
  rintro rfl
  cases many

theorem text_arrayedAtEnd {type : DocType} (printable : Printable type) :
    (arrayedAtEnd type).text = type.text ++ ['[', ']'] := by
  induction printable with
  | nullable _ _ ih => simp [arrayedAtEnd, text, ih]
  | @callable base parameters result _ _ _ _ _ _ ih =>
      cases result with
      | none => simp [arrayedAtEnd, array_text, needsParentheses, parenthesizedIf]
      | some result => simp [arrayedAtEnd, text, resultText, ih result rfl]
  | union many _ _ ih =>
      rw [arrayedAtEnd, union_text_eq_join, union_text_eq_join,
        join_arrayedLast _ (ne_nil_of_many many) ih]
  | intersection many _ _ ih =>
      rw [arrayedAtEnd, intersection_text_eq_join, intersection_text_eq_join,
        join_arrayedLast _ (ne_nil_of_many many) ih]
  | _ => simp [arrayedAtEnd, array_text, needsParentheses, parenthesizedIf]

theorem arrayedAtEnd_simple {type : DocType} (simple : type.isCompound = false) :
    (arrayedAtEnd type).isCompound = false := by
  simpa [arrayedPart, simple] using arrayedPart_simple type

theorem printable_arrayedPart {type : DocType} (printable : Printable type)
    (arrayed : Printable (arrayedAtEnd type)) : Printable (arrayedPart type) := by
  unfold arrayedPart
  split
  · next compound =>
      refine .array ?_ printable
      rintro base parameters result rfl
      cases compound
  · exact arrayed

/-- The members of a chain stay printable when a `[]` goes to the last one. -/
theorem printable_arrayedLast {front : List DocType} {last : DocType}
    (each : ∀ member ∈ front ++ [last], Printable member)
    (arrayed : Printable (arrayedAtEnd last)) :
    ∀ member ∈ front ++ [arrayedPart last], Printable member := by
  intro member found
  rcases List.mem_append.mp found with before | final
  · exact each member (List.mem_append_left _ before)
  · obtain rfl := List.mem_singleton.mp final
    exact printable_arrayedPart (each last (by simp)) arrayed

theorem printable_arrayedAtEnd {type : DocType} (printable : Printable type) :
    Printable (arrayedAtEnd type) := by
  induction printable with
  | name name => exact .array nofun (.name name)
  | quoted quoted => exact .array nofun (.quoted quoted)
  | number number => exact .array nofun (.number number)
  | constant name word => exact .array nofun (.constant name word)
  | nullable simple _ ih => exact .nullable (arrayedAtEnd_simple simple) ih
  | array noResult item _ => exact .array nofun (.array noResult item)
  | generic base nonempty arguments _ => exact .array nofun (.generic base nonempty arguments)
  | shape base fits values _ => exact .array nofun (.shape base fits values)
  | @callable name parameters result base callable simple each given _ ih =>
      cases result with
      | none => exact .array (by simp) (.callable base callable simple each given)
      | some result =>
          refine .callable base callable ?_ each ?_
          · intro type found
            cases found
            exact arrayedAtEnd_simple (simple result rfl)
          · intro type found
            cases found
            exact ih result rfl
  | conditional plain closed subject target positive negative _ _ _ _ =>
      exact .array nofun (.conditional plain closed subject target positive negative)
  | @union members many flat each ih =>
      obtain ⟨front, last, rfl⟩ :=
        List.eq_nil_or_concat members |>.resolve_left (ne_nil_of_many many)
      rw [List.concat_eq_append] at many flat each ih
      rw [arrayedAtEnd, List.concat_eq_append, arrayedLast_concat]
      refine .union (by simpa using many) ?_ (printable_arrayedLast each (ih last (by simp)))
      intro member found inner same
      rcases List.mem_append.mp found with before | final
      · exact flat member (List.mem_append_left _ before) inner same
      · obtain rfl := List.mem_singleton.mp final
        have simple := arrayedPart_simple last
        rw [same] at simple
        cases simple
  | @intersection members many heads each ih =>
      obtain ⟨front, last, rfl⟩ :=
        List.eq_nil_or_concat members |>.resolve_left (ne_nil_of_many many)
      rw [List.concat_eq_append] at many heads each ih
      rw [arrayedAtEnd, List.concat_eq_append, arrayedLast_concat]
      refine .intersection (by simpa using many) ?_
        (printable_arrayedLast each (ih last (by simp)))
      match front, many with
      | first :: others, _ =>
          have texts := text_arrayedAtEnd (each last (by simp))
          intro member found
          rcases List.mem_append.mp found with before | final
          · exact heads member (List.mem_append_left _ before)
          · obtain rfl := List.mem_singleton.mp final
            have head := heads last (List.mem_append_right _ (by simp))
            rw [memberText_arrayedPart texts]
            cases here : last.memberText with
            | nil => simp
            | cons c more => simpa [here] using head

/-- What one member of a chain is read as: parts that are written as it is. -/
structure PartsOf (separator : Char) (member : DocType) (parts : List DocType) : Prop where
  some : parts ≠ []
  printable : ∀ part ∈ parts, Printable part
  text : Text.join [separator] (parts.map memberText) = member.memberText

theorem join_flatMap {α : Type} (separator : Text) (parts : α → List Text) (items : List α)
    (some : ∀ item ∈ items, parts item ≠ []) :
    Text.join separator (items.flatMap parts) =
      Text.join separator (items.map fun item => Text.join separator (parts item)) := by
  have more : ∀ items : List α, (∀ item ∈ items, parts item ≠ []) →
      (items.flatMap parts).flatMap (separator ++ ·) =
        (items.map fun item => Text.join separator (parts item)).flatMap (separator ++ ·) := by
    intro items some
    induction items with
    | nil => rfl
    | cons item items ih =>
        obtain ⟨here, later⟩ := List.forall_mem_cons.mp some
        obtain ⟨first, others, found⟩ := List.exists_cons_of_ne_nil here
        simp [ih later, found, Text.join_cons]
  cases items with
  | nil => rfl
  | cons item items =>
      obtain ⟨here, later⟩ := List.forall_mem_cons.mp some
      obtain ⟨first, others, found⟩ := List.exists_cons_of_ne_nil here
      simp [found, Text.join_cons, more items later]

section

variable {separator : Char} {members : List DocType} {parts : DocType → List DocType}

theorem join_parts (each : ∀ member ∈ members, PartsOf separator member (parts member)) :
    Text.join [separator] ((members.flatMap parts).map memberText) =
      Text.join [separator] (members.map memberText) := by
  rw [List.map_flatMap, join_flatMap]
  · congr 1
    exact List.map_congr_left fun member found => (each member found).text
  · intro member found
    simpa using (each member found).some

theorem printable_parts (each : ∀ member ∈ members, PartsOf separator member (parts member)) :
    ∀ part ∈ members.flatMap parts, Printable part := by
  intro part found
  obtain ⟨member, inside, found⟩ := List.mem_flatMap.mp found
  exact (each member inside).printable part found

theorem length_parts (each : ∀ member ∈ members, PartsOf separator member (parts member)) :
    members.length ≤ (members.flatMap parts).length := by
  induction members with
  | nil => simp
  | cons member members ih =>
      obtain ⟨here, later⟩ := List.forall_mem_cons.mp each
      have some := List.length_pos_iff.mpr here.some
      have more := ih later
      simp only [List.flatMap_cons, List.length_append, List.length_cons]
      omega

end

theorem isCompound_regrouped {type : DocType} (compound : type.isCompound = true) :
    (regrouped type).isCompound = true := by
  cases type <;> first | rfl | cases compound

theorem memberText_congr {type other : DocType} (kind : type.isCompound = other.isCompound)
    (texts : type.text = other.text) : type.memberText = other.memberText := by
  rw [memberText, memberText, kind, texts]

theorem partsOf_self {separator : Char} {member type : DocType} (printable : Printable type)
    (texts : type.text = member.text) (kind : type.isCompound = member.isCompound) :
    PartsOf separator member [type] := by
  refine ⟨by simp, by simpa using printable, ?_⟩
  simpa [Text.join_cons] using memberText_congr kind texts

/-- A member of a union is read as one member, or as those of a union that is written without
parentheses. -/
theorem partsOf_alternatives {member : DocType} (noUnion : ∀ inner, member ≠ .union inner)
    (inPlace : member.isCompound = false → ∀ inner, regrouped member ≠ .intersection inner)
    (printable : Printable (regrouped member)) (texts : (regrouped member).text = member.text) :
    PartsOf '|' member (regrouped member).alternatives ∧
      ∀ part ∈ (regrouped member).alternatives, ∀ inner, part ≠ .union inner := by
  cases compound : member.isCompound with
  | true =>
      have kind := (isCompound_regrouped compound).trans compound.symm
      cases member with
      | intersection members =>
        exact ⟨partsOf_self printable texts kind, by simp [regrouped, alternatives]⟩
      | union members => exact absurd rfl (noUnion members)
      | _ => cases compound
  | false =>
      generalize regrouped member = read at inPlace printable texts
      cases read with
      | union inner =>
          cases printable with
          | union many flat each =>
              refine ⟨⟨ne_nil_of_many many, each, ?_⟩, flat⟩
              rw [memberText_simple compound, ← texts, union_text_eq_join]
              rfl
      | intersection inner => exact absurd rfl (inPlace compound inner)
      | _ => exact ⟨partsOf_self printable texts compound.symm, by simp [alternatives]⟩

/-- The parts that a member of an intersection is read as. -/
def conjunctsOf (member : DocType) : List DocType :=
  if member.isCompound then [regrouped member] else (regrouped member).conjuncts

/-- A member of an intersection is read as one member, or as those of an intersection that is
written without parentheses. -/
theorem partsOf_conjuncts {member : DocType}
    (inPlace : member.isCompound = false → ∀ inner, regrouped member ≠ .union inner)
    (printable : Printable (regrouped member)) (texts : (regrouped member).text = member.text) :
    PartsOf '&' member (conjunctsOf member) ∧
      ∀ part ∈ (conjunctsOf member).tail, part.memberText.head? ≠ some '$' := by
  unfold conjunctsOf
  cases compound : member.isCompound with
  | true =>
      have kind := (isCompound_regrouped compound).trans compound.symm
      exact ⟨partsOf_self printable texts kind, by simp⟩
  | false =>
      simp only [Bool.false_eq_true, ↓reduceIte]
      generalize regrouped member = read at inPlace printable texts
      cases read with
      | union inner => exact absurd rfl (inPlace compound inner)
      | intersection inner =>
          cases printable with
          | intersection many heads each =>
              refine ⟨⟨ne_nil_of_many many, each, ?_⟩, heads⟩
              rw [memberText_simple compound, ← texts, intersection_text_eq_join]
              rfl
      | _ => exact ⟨partsOf_self printable texts compound.symm, by simp [conjuncts]⟩

/-- The first part of a member begins as the member does. -/
theorem PartsOf.head {separator : Char} {member first : DocType} {others : List DocType}
    (parts : PartsOf separator member (first :: others)) :
    first.memberText.head? = member.memberText.head? := by
  have opening := opening_memberText (opening_text (parts.printable first (by simp)))
  have visible := List.ne_nil_of_length_pos opening.length_pos
  obtain ⟨c, more, here⟩ := List.exists_cons_of_ne_nil visible
  rw [← parts.text, List.map_cons, Text.join_cons, here]
  rfl

/-- No part but the first of all begins with a `$`. -/
theorem heads_parts {members : List DocType} {parts : DocType → List DocType}
    (each : ∀ member ∈ members, PartsOf '&' member (parts member) ∧
      ∀ part ∈ (parts member).tail, part.memberText.head? ≠ some '$')
    (heads : ∀ member ∈ members.tail, member.memberText.head? ≠ some '$') :
    ∀ part ∈ (members.flatMap parts).tail, part.memberText.head? ≠ some '$' := by
  cases members with
  | nil => simp
  | cons member members =>
      obtain ⟨⟨here, apart⟩, later⟩ := List.forall_mem_cons.mp each
      obtain ⟨first, others, found⟩ := List.exists_cons_of_ne_nil here.some
      rw [found] at apart
      rw [List.flatMap_cons, found]
      intro part inside
      rcases List.mem_append.mp inside with own | behind
      · exact apart part own
      · obtain ⟨next, among, own⟩ := List.mem_flatMap.mp behind
        obtain ⟨nextParts, nextApart⟩ := later next among
        obtain ⟨lead, rest, seen⟩ := List.exists_cons_of_ne_nil nextParts.some
        rw [seen] at own nextParts nextApart
        rcases List.mem_cons.mp own with rfl | further
        · rw [nextParts.head]
          exact heads next among
        · exact nextApart part further

theorem Regroups.conditional_inv {words : Text} {negated : Bool}
    {target positive negative : DocType}
    (regroups : Regroups (.conditional words negated target positive negative)) :
    (negated = false → ¬ LedBy "not".toList target.text) ∧
      ¬ EndsInParameters (regrouped positive) ∧
      (∃ subject, Printable subject ∧ words = subject.text) ∧
      Regroups target ∧ Regroups positive ∧ Regroups negative := by
  cases regroups with
  | conditional plain closed subject target positive negative =>
      exact ⟨plain, closed, ⟨_, subject, rfl⟩, target, positive, negative⟩

theorem needsParentheses_onFirstPart (type : DocType) :
    (onFirstPart .nullable type).needsParentheses = true := by
  unfold onFirstPart
  split <;> rfl

theorem needsParentheses_regrouped {type : DocType} (marked : type.needsParentheses = true) :
    (regrouped type).needsParentheses = true := by
  cases type with
  | union members => rfl
  | intersection members => rfl
  | nullable inner => exact needsParentheses_onFirstPart (regrouped inner)
  | _ => cases marked

theorem texts_regrouped {types : List DocType}
    (same : ∀ type ∈ types, (regrouped type).text = type.text) :
    texts (types.map regrouped) = texts types := by
  rw [texts_eq_map, texts_eq_map, List.map_map]
  exact List.map_congr_left same

/-- The tree that the text of a type is read as can be told from its text, which is the same. -/
structure Rereads (type : DocType) : Prop where
  printable : Printable (regrouped type)
  text : (regrouped type).text = type.text

theorem rereads_nullable {inner : DocType} (plain : (regrouped inner).firstPart.isCompound = false)
    (below : Rereads inner) : Rereads (.nullable inner) := by
  refine ⟨printable_onFirstPart (fun _ => rfl) (fun _ => .nullable) plain below.printable, ?_⟩
  rw [regrouped, text_onFirstPart ['?'] (fun _ => rfl) (fun _ => rfl) plain, below.text]
  rfl

theorem rereads_array {item : DocType} (below : Rereads item) : Rereads (.array item) := by
  cases marked : item.needsParentheses with
  | true =>
      have again := needsParentheses_regrouped marked
      constructor
      · rw [regrouped, if_pos marked]
        refine .array ?_ below.printable
        intro base parameters result same
        rw [same] at again
        cases again
      · rw [regrouped, if_pos marked, array_text, array_text, again, marked, below.text]
  | false =>
      have unmarked : ¬ item.needsParentheses = true := by simp [marked]
      constructor
      · rw [regrouped, if_neg unmarked]
        exact printable_arrayedAtEnd below.printable
      · rw [regrouped, if_neg unmarked, text_arrayedAtEnd below.printable, below.text, array_text]
        simp [parenthesizedIf, marked]

theorem rereads_generic {base : Text} {arguments : List DocType} (name : isName base = true)
    (some_ : arguments ≠ [])
    (below : ∀ argument ∈ arguments, argument ≠ star → Rereads argument) :
    Rereads (.generic base arguments) := by
  constructor
  · rw [regrouped, regroupedAll_eq_map]
    refine .generic name (by simpa using some_) fun argument found any => ?_
    obtain ⟨given, inside, rfl⟩ := List.mem_map.mp found
    have other : given ≠ star := by
      rintro rfl
      exact any rfl
    exact (below given inside other).printable
  · have same : ∀ given ∈ arguments, (regrouped given).text = given.text := by
      intro given inside
      by_cases any : given = star
      · rw [any]
        rfl
      · exact (below given inside any).text
    rw [regrouped, regroupedAll_eq_map, text, text, texts_regrouped same]

theorem rereads_shape {base : Text} {entries : List (ShapeEntry DocType)}
    (name : isName base = true) (fits : ∀ entry ∈ entries, EntryFits entry)
    (below : ∀ entry ∈ entries, Rereads entry.value) : Rereads (.shape base entries) := by
  have same : ∀ entry ∈ entries, (regrouped entry.value).text = entry.value.text :=
    fun entry inside => (below entry inside).text
  constructor
  · rw [regrouped, regroupedEntries_eq_map]
    refine .shape name (fun entry found => ?_) fun entry found => ?_
    · obtain ⟨given, inside, rfl⟩ := List.mem_map.mp found
      simpa [EntryFits, same given inside] using fits given inside
    · obtain ⟨given, inside, rfl⟩ := List.mem_map.mp found
      exact (below given inside).printable
  · rw [regrouped, regroupedEntries_eq_map, text, text, entryTexts_eq_map, entryTexts_eq_map,
      List.map_map]
    congr 4
    exact List.map_congr_left fun entry inside => by simp [same entry inside]

theorem rereads_callable {base : Text} {parameters : List DocType} {result : Option DocType}
    (name : isName base = true) (callable : isCallableName base = true)
    (apart : ∀ type ∈ result, (regrouped type).firstPart.isCompound = false)
    (below : ∀ parameter ∈ parameters, Rereads parameter)
    (given : ∀ type ∈ result, Rereads type) : Rereads (.callable base parameters result) := by
  have printable : ∀ parameter ∈ parameters.map regrouped, Printable parameter := by
    intro parameter found
    obtain ⟨parameter, inside, rfl⟩ := List.mem_map.mp found
    exact (below parameter inside).printable
  have same := texts_regrouped fun parameter inside => (below parameter inside).text
  cases result with
  | none =>
      constructor
      · rw [regrouped, regroupedAll_eq_map]
        exact .callable name callable nofun printable nofun
      · rw [regrouped, regroupedAll_eq_map]
        simp only [text, same]
  | some result =>
      obtain ⟨fits, written⟩ := given result rfl
      have plain := apart result rfl
      constructor
      · rw [regrouped, regroupedAll_eq_map]
        refine printable_onFirstPart (fun _ => rfl) (fun inner simple fits => ?_) plain fits
        exact .callable name callable (by simpa using simple) printable (by simpa using fits)
      · let front := base ++ '(' :: (Text.join [',', ' '] (texts parameters) ++ [')', ':', ' '])
        have behind : ∀ inner : DocType,
            (DocType.callable base (parameters.map regrouped) (some inner)).text =
              front ++ inner.text := fun inner => by
          simp [front, text, same, DocType.resultText]
        rw [regrouped, regroupedAll_eq_map, text_onFirstPart front (fun _ => rfl) behind plain,
          written]
        simp [front, text, DocType.resultText]

theorem rereads_conditional {subject target positive negative : DocType} {negated : Bool}
    (plain : negated = false → ¬ LedBy "not".toList target.text)
    (closed : ¬ EndsInParameters (regrouped positive)) (printable : Printable subject)
    (first : Rereads target) (second : Rereads positive) (third : Rereads negative) :
    Rereads (.conditional subject.text negated target positive negative) := by
  constructor
  · rw [regrouped]
    refine .conditional ?_ closed printable first.printable second.printable third.printable
    rw [first.text]
    exact plain
  · rw [regrouped]
    simp only [text, first.text, second.text, third.text]

theorem rereads_union {members : List DocType} (many : 2 ≤ members.length)
    (flat : ∀ member ∈ members, ∀ inner, member ≠ .union inner)
    (inPlace : ∀ member ∈ members, member.isCompound = false →
      ∀ inner, regrouped member ≠ .intersection inner)
    (below : ∀ member ∈ members, Rereads member) : Rereads (.union members) := by
  have parts : ∀ member ∈ members, PartsOf '|' member (regrouped member).alternatives ∧
      ∀ part ∈ (regrouped member).alternatives, ∀ inner, part ≠ .union inner :=
    fun member inside => partsOf_alternatives (flat member inside) (inPlace member inside)
      (below member inside).printable (below member inside).text
  have among := fun member inside => (parts member inside).1
  have longer := length_parts among
  constructor
  · rw [regrouped, regroupedAll_eq_map, List.flatMap_map]
    refine .union (Nat.le_trans many longer) (fun part found => ?_) (printable_parts among)
    obtain ⟨member, inside, found⟩ := List.mem_flatMap.mp found
    exact (parts member inside).2 part found
  · rw [regrouped, regroupedAll_eq_map, List.flatMap_map, union_text_eq_join, union_text_eq_join,
      join_parts among]

theorem rereads_intersection {members : List DocType} (many : 2 ≤ members.length)
    (inPlace : ∀ member ∈ members, member.isCompound = false →
      ∀ inner, regrouped member ≠ .union inner)
    (heads : ∀ member ∈ members.tail, member.memberText.head? ≠ some '$')
    (below : ∀ member ∈ members, Rereads member) : Rereads (.intersection members) := by
  have parts : ∀ member ∈ members, PartsOf '&' member (conjunctsOf member) ∧
      ∀ part ∈ (conjunctsOf member).tail, part.memberText.head? ≠ some '$' :=
    fun member inside => partsOf_conjuncts (inPlace member inside) (below member inside).printable
      (below member inside).text
  have among := fun member inside => (parts member inside).1
  have longer := length_parts among
  constructor
  · rw [regrouped, regroupedConjuncts_eq_flatMap]
    exact .intersection (Nat.le_trans many longer) (heads_parts parts heads) (printable_parts among)
  · rw [regrouped, regroupedConjuncts_eq_flatMap, intersection_text_eq_join,
      intersection_text_eq_join]
    exact join_parts among

/-- A tree that was read and that regroups has the text of another tree, which can be told from
it. -/
theorem rereads_of_regroups {type : DocType} (shaped : WellShaped type)
    (regroups : Regroups type) : Rereads type := by
  -- over the tree that was read; each case takes its conditions from `regroups`
  induction shaped with
  | name word =>
      cases regroups with
      | name solid => exact ⟨.name (isName_of_isCompleteWord word solid), rfl⟩
  | quoted quoted => exact ⟨.quoted quoted, rfl⟩
  | number number => exact ⟨.number number, rfl⟩
  | constant name word =>
      cases regroups with
      | literal kind =>
          refine ⟨?_, rfl⟩
          rcases kind with quoted | solid
          · exact .quoted quoted
          · simp only [isSolid, List.all_append, Bool.and_eq_true] at solid
            exact .constant (isName_of_isCompleteWord name solid.1) word
  | nullable _ ih =>
      cases regroups with
      | nullable plain inner => exact rereads_nullable plain (ih inner)
  | array _ ih =>
      cases regroups with
      | array inner => exact rereads_array (ih inner)
  | generic word nonempty _ ih =>
      cases regroups with
      | generic solid each =>
          exact rereads_generic (isName_of_isCompleteWord word solid) nonempty
            fun argument inside other => ih argument inside other (each argument inside other)
  | shape word _ _ ih =>
      cases regroups with
      | shape solid fits each =>
          exact rereads_shape (isName_of_isCompleteWord word solid) fits
            fun entry inside => ih entry inside (each entry inside)
  | callable word callable _ _ ihParameters ihResult =>
      cases regroups with
      | callable solid plain each given =>
          exact rereads_callable (isName_of_isCompleteWord word solid) callable plain
            (fun parameter inside => ihParameters parameter inside (each parameter inside))
            fun type found => ihResult type found (given type found)
  | conditional _ _ _ _ _ ihTarget ihPositive ihNegative =>
      obtain ⟨plain, closed, ⟨other, printable, words⟩, first, second, third⟩ :=
        regroups.conditional_inv
      rw [words]
      exact rereads_conditional plain closed printable (ihTarget first) (ihPositive second)
        (ihNegative third)
  | union many flat _ ih =>
      cases regroups with
      | union inPlace each =>
          exact rereads_union many flat inPlace fun member inside =>
            ih member inside (each member inside)
  | intersection many _ ih =>
      cases regroups with
      | intersection inPlace heads each =>
          exact rereads_intersection many inPlace heads fun member inside =>
            ih member inside (each member inside)

/-- The text of a type that was read is read again, to its end, and gives the same text; the tree
may be grouped in another way. -/
theorem parseType_regrouped {s rest : Text} {type : DocType} (read : parseType s = .ok (type, rest))
    (regroups : Regroups type) :
    parseType type.text = .ok (regrouped type, []) ∧ (regrouped type).text = type.text := by
  obtain ⟨printable, texts⟩ := rereads_of_regroups (wellShaped_of_parseType read) regroups
  have again := parseType_behind printable [] (follows_nil 0 _) nofun
  rw [List.append_nil, texts] at again
  exact ⟨again, texts⟩

def nestedType : DocType :=
  .union [.array (.callable "callable".toList [] (some (.name "A".toList))),
    .nullable (.union [.name "B".toList, .name "C".toList])]

example : nestedType.text = "callable(): A[]|?B|C".toList := by decide

theorem parseType_nestedType :
    parseType "(callable(): A)[]|?(B|C) x".toList = .ok (nestedType, " x".toList) ∧
      Regroups nestedType ∧ parseType nestedType.text = .ok (regrouped nestedType, []) ∧
      (regrouped nestedType).text = nestedType.text := by
  have read : parseType "(callable(): A)[]|?(B|C) x".toList = .ok (nestedType, " x".toList) := by
    decide +kernel
  have name : ∀ s ∈ ["A", "B", "C"].map String.toList, Regroups (.name s) :=
    fun s found => .name (by revert s; decide)
  have callable : Regroups (.callable "callable".toList [] (some (.name "A".toList))) :=
    .callable (by decide) (by simp [regrouped, firstPart, isCompound]) (List.forall_mem_nil _)
      (by simpa using name "A".toList (by decide))
  have union : Regroups (.union [.name "B".toList, .name "C".toList]) :=
    .union (by simp [regrouped])
      (by simpa using ⟨name "B".toList (by decide), name "C".toList (by decide)⟩)
  have regroups : Regroups nestedType := by
    have array : regrouped (.array (.callable "callable".toList [] (some (.name "A".toList)))) =
        .callable "callable".toList [] (some (.array (.name "A".toList))) := rfl
    have nullable : regrouped (.nullable (.union [.name "B".toList, .name "C".toList])) =
        .union [.nullable (.name "B".toList), .name "C".toList] := rfl
    refine .union ?_ (by simpa using ⟨.array callable, .nullable rfl union⟩)
    refine List.forall_mem_cons.mpr ⟨?_, List.forall_mem_cons.mpr ⟨?_, List.forall_mem_nil _⟩⟩
    · intro _ inner same
      rw [array] at same
      cases same
    · intro _ inner same
      rw [nullable] at same
      cases same
  exact ⟨read, regroups, parseType_regrouped read regroups⟩

/-- Without the parentheses a variable is no member of an intersection, and a union that was
nullable within an intersection is one around it. -/
theorem parseType_text_unstable :
    (∃ type, parseType "A&($this)".toList = .ok (type, []) ∧
        ∀ read, parseType type.text ≠ .ok read) ∧
      ∃ type other, parseType "(?(A|B))&C".toList = .ok (type, []) ∧
        parseType type.text = .ok (other, []) ∧ other.text ≠ type.text := by
  refine ⟨⟨.intersection [.name "A".toList, .name "$this".toList], by decide +kernel, ?_⟩,
    .intersection [.nullable (.union [.name "A".toList, .name "B".toList]), .name "C".toList],
    .union [.nullable (.name "A".toList), .intersection [.name "B".toList, .name "C".toList]],
    by decide +kernel, by decide +kernel, by decide⟩
  have fails : (parseType "A&$this".toList).toOption.isNone = true := by decide +kernel
  intro read found
  have found : parseType "A&$this".toList = .ok read := found
  rw [found] at fails
  cases fails

end DocSig.DocType
