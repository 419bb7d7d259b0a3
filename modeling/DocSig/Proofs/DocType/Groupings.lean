import DocSig.Proofs.DocType.Nesting
import DocSig.Proofs.DocType.RoundTrip
import DocSig.Signature

/-!
The set of a union does not depend on how the union is written.

A grouping is a union of leaves, each of them a text that is read in full as a type other than a
union, with parentheses wherever one likes. A leaf is read before the mark of the next member as it
is on its own, and as deep in brackets as it stands (`Leaf.reads`). A nested union gives its members
to the one around it, so that the leaves of a grouping are the members of one union
(`unionOf_leaves`, `parseType_grouping`).
-/

set_option autoImplicit false

namespace DocSig.DocType

/-- A text that is read in full as a type other than a union, without white space outside of
ASCII. -/
structure Leaf where
  text : Text
  type : DocType
  spells : Spells text type
  single : ∀ members, type ≠ .union members

/-- A union of leaves, whose members may be put together in unions of their own. -/
inductive Grouping where
  | leaf (leaf : Leaf)
  | joined (first : Grouping) (others : List Grouping)

namespace Grouping

mutual

/-- A grouping as a member of another one: in parentheses, unless it is a leaf. -/
def memberText : Grouping → Text
  | .leaf only => only.text
  | .joined first others => '(' :: (memberText first ++ moreText others ++ [')'])

def moreText : List Grouping → Text
  | [] => []
  | next :: others => '|' :: (memberText next ++ moreText others)

end

def text : Grouping → Text
  | .leaf only => only.text
  | .joined first others => memberText first ++ moreText others

mutual

def leaves : Grouping → List Leaf
  | .leaf only => [only]
  | .joined first others => leaves first ++ moreLeaves others

def moreLeaves : List Grouping → List Leaf
  | [] => []
  | next :: others => leaves next ++ moreLeaves others

end

end Grouping

/-- One leaf, or the union of several ones. -/
def united : List Leaf → DocType
  | [leaf] => leaf.type
  | leaves => .union (leaves.map Leaf.type)

theorem Leaf.alternatives (leaf : Leaf) : leaf.type.alternatives = [leaf.type] := by
  unfold DocType.alternatives
  split
  · next members same => exact absurd same (leaf.single members)
  · rfl

theorem alternatives_united {leaves : List Leaf} (some : leaves ≠ []) :
    (united leaves).alternatives = leaves.map Leaf.type := by
  match leaves with
  | [] => exact absurd rfl some
  | [leaf] => exact leaf.alternatives
  | _ :: _ :: _ => rfl

theorem united_append {front behind : List Leaf} (first : front ≠ []) (more : behind ≠ []) :
    united (front ++ behind) = .union ((front ++ behind).map Leaf.type) := by
  match front, behind with
  | [], _ => exact absurd rfl first
  | _, [] => exact absurd rfl more
  | [_], _ :: _ => rfl
  | _ :: _ :: _, _ :: _ => rfl

theorem texts_united {leaves : List Leaf} (some : leaves ≠ []) :
    (united leaves).toAlternatives.texts = leaves.map fun leaf => leaf.type.text := by
  match leaves with
  | [] => exact absurd rfl some
  | [leaf] =>
      unfold united toAlternatives
      split
      · next members same => exact absurd same (leaf.single members)
      · rfl
  | first :: second :: more => simp [united, toAlternatives, Alternatives.texts]

namespace Grouping

theorem leaves_ne_nil : ∀ grouping : Grouping, grouping.leaves ≠ []
  | .leaf only => by
      rw [leaves]
      exact List.cons_ne_nil only []
  | .joined first others => by
      rw [leaves]
      exact List.append_ne_nil_of_left_ne_nil (leaves_ne_nil first) (moreLeaves others)

theorem moreLeaves_eq_flatMap (others : List Grouping) :
    moreLeaves others = others.flatMap leaves := by
  induction others with
  | nil => rfl
  | cons next others ih => rw [moreLeaves, List.flatMap_cons, ih]

/-- A union of unions has the leaves of all of them as its members. -/
theorem unionOf_leaves (first : Grouping) (others : List Grouping) :
    unionOf (united first.leaves) (others.map fun next => united next.leaves) =
      united (joined first others).leaves := by
  cases others with
  | nil => simp [unionOf, leaves, moreLeaves]
  | cons next others =>
      have behind : moreLeaves (next :: others) ≠ [] := by
        rw [moreLeaves]
        exact List.append_ne_nil_of_left_ne_nil next.leaves_ne_nil _
      have members : ∀ groupings : List Grouping,
          (groupings.map fun next => united next.leaves).flatMap alternatives =
            (groupings.flatMap leaves).map Leaf.type := by
        intro groupings
        rw [List.flatMap_map, List.map_flatMap]
        exact List.flatMap_congr fun next _ => alternatives_united next.leaves_ne_nil
      have all := members (first :: next :: others)
      rw [List.flatMap_cons, ← moreLeaves_eq_flatMap] at all
      rw [leaves, united_append first.leaves_ne_nil behind, ← all]
      rfl

end Grouping

/-- What may stand behind a member of a grouping: nothing, outside of brackets, or the mark before
another member or behind the last one. -/
structure EndsMember (depth : Nat) (rest : Text) : Prop where
  mark : (rest = [] ∧ depth = 0) ∨ ∃ c more, rest = c :: more ∧ (c = '|' ∨ c = ')')
  narrow : ∀ c ∈ rest, isBlank c = true → isAscii c = true

namespace EndsMember

variable {depth : Nat} {rest : Text}

/-- Nothing of it is passed over as a separator. -/
theorem seen (ends : EndsMember depth rest) (level : Nat) : behindSeparators level rest = rest := by
  rcases ends.mark with ⟨rfl, -⟩ | ⟨c, more, rfl, rfl | rfl⟩
  · exact behindSeparators_nil level
  · exact behindSeparators_solid level '|' more (by decide)
  · exact behindSeparators_solid level ')' more (by decide)

theorem calm (ends : EndsMember depth rest) : Calm rest := by
  rcases ends.mark with ⟨rfl, -⟩ | ⟨c, more, rfl, rfl | rfl⟩
  · exact calm_nil
  · exact calm_mark (Or.inr rfl) more
  · exact calm_mark (Or.inl rfl) more

theorem stopsAt (ends : EndsMember depth rest) {class? : Char → Bool} (bar : class? '|' = false)
    (close : class? ')' = false) : StopsAt class? rest := by
  rcases ends.mark with ⟨rfl, -⟩ | ⟨c, more, rfl, rfl | rfl⟩
  · exact stopsAt_nil class?
  · exact (stopsAt_cons class? '|' more).mpr bar
  · exact (stopsAt_cons class? ')' more).mpr close

theorem head_ne (ends : EndsMember depth rest) {c : Char} (noBar : c ≠ '|') (noClose : c ≠ ')') :
    rest.head? ≠ some c := by
  rcases ends.mark with ⟨rfl, -⟩ | ⟨d, more, rfl, rfl | rfl⟩
  · simp
  · exact fun same => noBar (Option.some.inj same).symm
  · exact fun same => noClose (Option.some.inj same).symm

end EndsMember

namespace Leaf

variable (leaf : Leaf)

/-- A leaf is one member of a union, with nothing behind it. -/
theorem conjunct : ∃ allowance,
    conjunction (readTerm allowance) allowance ⟨leaf.text, 0⟩ = .ok (leaf.type, ⟨[], 0⟩) := by
  obtain ⟨read, -⟩ := parseType_ok_iff.mp leaf.spells.read
  rw [allowanceFor, readUnion_succ] at read
  obtain ⟨⟨first, middle⟩, one, next⟩ := bind_eq_ok.mp read
  obtain ⟨⟨others, last⟩, more, final⟩ := bind_eq_ok.mp next
  obtain ⟨same, rfl⟩ := Prod.mk.inj (Except.ok.inj final)
  refine ⟨_, one.trans ?_⟩
  cases moreAlternatives_ok_iff.mp more with
  | joined => exact absurd same.symm (leaf.single _)
  | ends =>
      rw [← same]
      rfl

/-- A leaf is read the same before whatever may stand behind it, at any depth. -/
theorem reads {depth bound : Nat} {rest : Text} (enough : 2 * leaf.text.length + 1 ≤ bound)
    (ends : EndsMember depth rest) :
    conjunction (readTerm bound) bound ⟨leaf.text ++ rest, depth⟩ =
      .ok (leaf.type, ⟨rest, depth⟩) := by
  obtain ⟨allowance, alone⟩ := leaf.conjunct
  -- a leaf with nothing behind it ends only outside of brackets, so these come afterwards
  have outside : conjunction (readTerm bound) bound ⟨leaf.text ++ rest, 0⟩ =
      .ok (leaf.type, ⟨rest, 0⟩) := by
    have mirrors : Mirrors [] rest Ends leaf.text.length
        (conjunction (readTerm allowance) allowance) (conjunction (readTerm bound) bound) :=
      mirrors_conjunction ends.calm (takes_types allowance).2
        ((mirrors_readers ends.calm allowance bound leaf.text.length).2 enough) allowance (by omega)
    rw [← List.append_nil leaf.text] at alone
    exact mirrors leaf.text [] 0 0 leaf.type alone (Or.inr ⟨rfl, rfl⟩) (by simp)
  have deepens : Deepens (conjunction (readTerm bound) bound) :=
    deepens_conjunction (takes_types bound).2 (opens_readTerm bound) (deepens_types bound).2 bound
  have narrow : ∀ c ∈ leaf.text ++ rest, isBlank c = true → isAscii c = true :=
    List.forall_mem_append.mpr ⟨leaf.spells.narrow, ends.narrow⟩
  have solid : StopsAt isBlank rest := ends.stopsAt (by decide) (by decide)
  have deeper : ∀ level, conjunction (readTerm bound) bound ⟨leaf.text ++ rest, level⟩ =
      .ok (leaf.type, ⟨rest, level⟩) := by
    intro level
    induction level with
    | zero => exact outside
    | succ level ih =>
        refine deepens _ _ _ ih (fun _ => narrow) (seen_of_stop ?_)
        rw [ends.seen level]
        exact solid
  exact deeper depth

end Leaf

/-- What parentheses hold is read as a term at any depth. -/
theorem readTerm_group {bound depth : Nat} {s rest : Text} {type : DocType}
    (group : grouped (readUnion bound) ⟨s, depth + 1⟩ = .ok (type, ⟨rest, depth + 1⟩)) :
    readTerm (bound + 1) ⟨'(' :: s, depth⟩ =
      .ok ((wrapArrays type rest).1, ⟨(wrapArrays type rest).2, depth⟩) := by
  refine readTerm_of_atom (atom_ok_iff.mpr ?_)
  have start : atomStart ⟨'(' :: s, depth⟩ = '(' :: s := by
    unfold atomStart
    split
    · exact Text.trimStart_cons_solid '(' s (by decide)
    · rfl
  rw [start]
  exact .group group

namespace Grouping

/-- A grouping starts visibly. -/
theorem head_memberText (grouping : Grouping) :
    ∃ c more, grouping.memberText = c :: more ∧ isBlank c = false := by
  cases grouping with
  | leaf only =>
      obtain ⟨c, more, shape, -, visible⟩ := only.spells.head
      exact ⟨c, more, by rw [memberText, shape], visible⟩
  | joined first others => exact ⟨'(', _, by rw [memberText], by decide⟩

mutual

theorem narrow_memberText : ∀ grouping : Grouping,
    ∀ c ∈ grouping.memberText, isBlank c = true → isAscii c = true
  | .leaf only => by
      rw [memberText]
      exact only.spells.narrow
  | .joined first others => by
      rw [memberText, List.forall_mem_cons, List.forall_mem_append, List.forall_mem_append,
        List.forall_mem_singleton]
      exact ⟨by decide, ⟨narrow_memberText first, narrow_moreText others⟩, by decide⟩

theorem narrow_moreText : ∀ others : List Grouping,
    ∀ c ∈ moreText others, isBlank c = true → isAscii c = true
  | [] => by
      rw [moreText]
      exact List.forall_mem_nil _
  | next :: others => by
      rw [moreText, List.forall_mem_cons, List.forall_mem_append]
      exact ⟨by decide, narrow_memberText next, narrow_moreText others⟩

end

theorem endsMember_moreText {depth : Nat} {rest : Text} (ends : EndsMember depth rest)
    (others : List Grouping) : EndsMember depth (moreText others ++ rest) where
  mark := by
    cases others with
    | nil => exact ends.mark
    | cons next others => exact Or.inr ⟨'|', _, by rw [moreText]; rfl, Or.inl rfl⟩
  narrow := List.forall_mem_append.mpr ⟨narrow_moreText others, ends.narrow⟩

def ReadsMember (grouping : Grouping) : Prop :=
  ∀ (depth bound : Nat) (rest : Text), 2 * grouping.memberText.length + 1 ≤ bound →
    EndsMember depth rest →
      conjunction (readTerm bound) bound ⟨grouping.memberText ++ rest, depth⟩ =
        .ok (united grouping.leaves, ⟨rest, depth⟩)

def ReadsMore (others : List Grouping) : Prop :=
  ∀ (depth bound count : Nat) (rest : Text), 2 * (moreText others).length ≤ bound →
    others.length < count → EndsMember depth rest → rest.head? ≠ some '|' →
      moreAlternatives (conjunction (readTerm bound) bound) count ⟨moreText others ++ rest, depth⟩ =
        .ok (others.map fun next => united next.leaves, ⟨rest, depth⟩)

theorem length_le_moreText (others : List Grouping) : others.length ≤ (moreText others).length := by
  induction others with
  | nil => exact Nat.zero_le _
  | cons next others ih =>
      rw [moreText, List.length_cons, List.length_cons, List.length_append]
      omega

/-- The union of a grouping's members. -/
theorem reads_joined {first : Grouping} {others : List Grouping} (one : first.ReadsMember)
    (more : ReadsMore others) {depth bound : Nat} {rest : Text}
    (enough : 2 * (first.memberText ++ moreText others).length + 2 ≤ bound)
    (ends : EndsMember depth rest) (last : rest.head? ≠ some '|') :
    readUnion bound ⟨first.memberText ++ moreText others ++ rest, depth⟩ =
      .ok (united (joined first others).leaves, ⟨rest, depth⟩) := by
  obtain ⟨bound, rfl⟩ := Nat.exists_eq_succ_of_ne_zero (show bound ≠ 0 by omega)
  rw [List.length_append] at enough
  have count := length_le_moreText others
  have firstRead := one depth bound _ (show 2 * first.memberText.length + 1 ≤ bound by omega)
    (endsMember_moreText ends others)
  have moreRead := more depth bound bound rest (show 2 * (moreText others).length ≤ bound by omega)
    (show others.length < bound by omega) ends last
  rw [readUnion_succ, alternation, List.append_assoc, firstRead, bind_ok]
  simp only [moreRead, bind_ok, unionOf_leaves]
  rfl

/-- A grouping in parentheses. -/
theorem reads_parenthesized {first : Grouping} {others : List Grouping} (one : first.ReadsMember)
    (more : ReadsMore others) : (joined first others).ReadsMember := by
  intro depth bound rest enough ends
  have size : (joined first others).memberText.length =
      (first.memberText ++ moreText others).length + 2 := by
    rw [memberText, List.length_cons, List.length_append, List.length_singleton]
  obtain ⟨bound, rfl⟩ := Nat.exists_eq_succ_of_ne_zero (show bound ≠ 0 by omega)
  have inside : EndsMember (depth + 1) (')' :: rest) :=
    ⟨Or.inr ⟨')', rest, rfl, Or.inr rfl⟩, List.forall_mem_cons.mpr ⟨by decide, ends.narrow⟩⟩
  have union := reads_joined one more
    (show 2 * (first.memberText ++ moreText others).length + 2 ≤ bound by omega) inside
    (show some ')' ≠ some '|' by decide)
  obtain ⟨c, tail, starts, visible⟩ := first.head_memberText
  rw [List.append_assoc] at union
  have front : first.memberText ++ (moreText others ++ ')' :: rest) =
      c :: (tail ++ (moreText others ++ ')' :: rest)) := by
    rw [starts]
    rfl
  have group := grouped_plain front visible union
  have term := readTerm_group group
  rw [wrapArrays_of_head _ rest (ends.head_ne (by decide) (by decide))] at term
  have whole : (joined first others).memberText ++ rest =
      '(' :: (first.memberText ++ (moreText others ++ ')' :: rest)) := by
    rw [memberText]
    simp only [List.cons_append, List.append_assoc, List.nil_append]
  rw [whole]
  refine conjunction_single (Nat.succ_pos bound) term fun more mark => ?_
  rw [ends.seen depth] at mark
  exact absurd (congrArg List.head? mark) (ends.head_ne (by decide) (by decide))

mutual

/-- Every grouping is read as a member of a union. -/
theorem readsMember : ∀ grouping : Grouping, grouping.ReadsMember
  | .leaf only => by
      intro depth bound rest enough ends
      rw [memberText] at enough ⊢
      exact only.reads enough ends
  | .joined first others => reads_parenthesized (readsMember first) (readsMore others)

theorem readsMore : ∀ others : List Grouping, ReadsMore others
  | [] => by
      intro depth bound count rest _ enough ends last
      obtain ⟨count, rfl⟩ := Nat.exists_eq_succ_of_ne_zero (Nat.ne_of_gt (Nat.zero_lt_of_lt enough))
      refine moreAlternatives_ok_iff.mpr (.ends fun more mark => last ?_)
      rw [moreText, List.nil_append, ends.seen depth] at mark
      exact congrArg List.head? mark
  | next :: others => by
      intro depth bound count rest wide enough ends last
      obtain ⟨count, rfl⟩ := Nat.exists_eq_succ_of_ne_zero (Nat.ne_of_gt (Nat.zero_lt_of_lt enough))
      rw [moreText, List.length_cons, List.length_append] at wide
      obtain ⟨c, tail, starts, visible⟩ := next.head_memberText
      have first := readsMember next depth bound _ (by omega) (endsMember_moreText ends others)
      -- the mark takes one of the allowance for members, and the rest is the others'
      have more := readsMore others depth bound count rest (by omega)
        (Nat.lt_of_succ_lt_succ enough) ends last
      have whole : moreText (next :: others) ++ rest =
          '|' :: (next.memberText ++ (moreText others ++ rest)) := by
        rw [moreText, List.cons_append, List.append_assoc]
      have seen : behindSeparators depth (next.memberText ++ (moreText others ++ rest)) =
          next.memberText ++ (moreText others ++ rest) := by
        rw [starts]
        exact behindSeparators_solid depth c _ visible
      rw [whole]
      refine moreAlternatives_ok_iff.mpr
        (.joined (behindSeparators_solid depth '|' _ (by decide)) ?_ ?_ more)
      · rw [seen, starts]
        exact List.cons_ne_nil c _
      · rw [seen]
        exact first

end

/-- A union whose members are put together in any way is read in full, as the one union of its
leaves. -/
theorem parseType_united (grouping : Grouping) :
    parseType grouping.text = .ok (united grouping.leaves, []) := by
  cases grouping with
  | leaf only => exact only.spells.read
  | joined first others =>
      have ends : EndsMember 0 [] := ⟨Or.inl ⟨rfl, rfl⟩, List.forall_mem_nil _⟩
      have read := reads_joined (readsMember first) (readsMore others) (Nat.le_refl _) ends
        (by simp)
      rw [List.append_nil] at read
      exact parseType_ok_iff.mpr ⟨read, by simp⟩

theorem toSet_united (grouping : Grouping) : (united grouping.leaves).toAlternatives.toSet =
    TypeSet.ofList (grouping.leaves.map fun leaf => leaf.type.text) := by
  rw [Alternatives.toSet, texts_united grouping.leaves_ne_nil]

end Grouping

/-- A union is read in full however its members are put together: as its leaf, if it has one, and
otherwise as one union of all its leaves from left to right, with no union among them. Its set is
that of the leaves' canonical texts, and the same for every grouping of the same leaves, in any
order and with any repetitions. -/
theorem parseType_grouping (grouping : Grouping) :
    parseType grouping.text = .ok (united grouping.leaves, []) ∧
      (∀ member ∈ (united grouping.leaves).alternatives, ∀ members, member ≠ .union members) ∧
      (united grouping.leaves).toAlternatives.toSet =
        TypeSet.ofList (grouping.leaves.map fun leaf => leaf.type.text) ∧
      ∀ other : Grouping, (∀ leaf, leaf ∈ other.leaves ↔ leaf ∈ grouping.leaves) →
        (united other.leaves).toAlternatives.toSet =
          (united grouping.leaves).toAlternatives.toSet := by
  refine ⟨grouping.parseType_united, ?_, grouping.toSet_united, fun other same => ?_⟩
  · rw [alternatives_united grouping.leaves_ne_nil]
    intro member found members
    obtain ⟨leaf, -, rfl⟩ := List.mem_map.mp found
    exact leaf.single members
  · rw [other.toSet_united, grouping.toSet_united]
    refine TypeSet.ext_mem fun text => ?_
    simp only [TypeSet.mem_ofList, List.mem_map, same]

def itemsLeaf : Leaf where
  text := "(A|B)[]".toList
  type := .array (.union [.name "A".toList, .name "B".toList])
  spells := ⟨forall_of_all (by decide), by decide +kernel⟩
  single := nofun

def optionalLeaf : Leaf where
  text := "?C".toList
  type := .nullable (.name "C".toList)
  spells := ⟨forall_of_all (by decide), by decide +kernel⟩
  single := nofun

theorem parseType_nestedGrouping :
    parseType "(A|B)[]|(?C|(A|B)[])".toList =
        .ok (.union [itemsLeaf.type, optionalLeaf.type, itemsLeaf.type], []) ∧
      parseType "(?C)|(A|B)[]".toList = .ok (.union [optionalLeaf.type, itemsLeaf.type], []) ∧
      (DocType.union [optionalLeaf.type, itemsLeaf.type]).toAlternatives.toSet =
        (DocType.union
          [itemsLeaf.type, optionalLeaf.type, itemsLeaf.type]).toAlternatives.toSet := by
  let reordered : Grouping := .joined (.joined (.leaf optionalLeaf) []) [.leaf itemsLeaf]
  obtain ⟨nested, -, -, same⟩ := parseType_grouping
    (.joined (.leaf itemsLeaf) [.joined (.leaf optionalLeaf) [.leaf itemsLeaf]])
  obtain ⟨flat, -⟩ := parseType_grouping reordered
  refine ⟨nested, flat, same reordered fun leaf => ?_⟩
  simp [reordered, Grouping.leaves, Grouping.moreLeaves, or_comm]

end DocSig.DocType
