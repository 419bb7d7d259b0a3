import DocSig.Proofs.Signature.Spelled

/-!
The line of a signature tells the whole signature.

Commas and semicolons also stand within types, but there they are within brackets or quotes.
`item` cuts a text before the first separator that is not; the text of a type that was read is
passed over by the cut (`passes_text`), so that the items of a line can be told one after the
other, and the line with them (`line_injective`).
-/

set_option autoImplicit false

namespace DocSig

namespace Signature

/-- The number of brackets that are open behind a character. -/
def depthBehind (depth : Nat) (c : Char) : Nat :=
  if isOpening c then depth + 1 else if isClosing c then depth - 1 else depth

/-- The text up to the first separator outside of brackets and quotes. A bracket counts only
outside of quotes, and a quote is closed by its own mark unless a backslash is before it. -/
def item : Nat → Option Char → Text → Text
  | _, _, [] => []
  | depth, none, c :: s =>
    if depth = 0 ∧ isSeparator c = true then []
    else c :: item (depthBehind depth c) (if isQuote c then some c else none) s
  | depth, some quote, '\\' :: c :: s => '\\' :: c :: item depth (some quote) s
  | depth, some quote, c :: s => c :: item depth (if c = quote then none else some quote) s

/-- The cut goes over the whole text and is behind it at the depth where it was before it. -/
def Passes (depth : Nat) (s : Text) : Prop :=
  ∀ rest, item depth none (s ++ rest) = s ++ item depth none rest

theorem passes_nil (depth : Nat) : Passes depth [] := fun _ => rfl

theorem Passes.append {depth : Nat} {s t : Text} (first : Passes depth s)
    (second : Passes depth t) : Passes depth (s ++ t) := by
  intro rest
  rw [List.append_assoc, first, second, List.append_assoc]

theorem passes_inert {depth : Nat} {c : Char} (inert : isInert c = true) : Passes depth [c] := by
  simp only [isInert, Bool.and_eq_true, Bool.not_eq_true'] at inert
  obtain ⟨⟨⟨separator, opening⟩, closing⟩, quote⟩ := inert
  intro rest
  simp [item, depthBehind, separator, opening, closing, quote]

/-- Within brackets a separator is passed over. -/
theorem passes_separator {depth : Nat} {c : Char} (separator : isSeparator c = true) :
    Passes (depth + 1) [c] := by
  have plain : isOpening c = false ∧ isClosing c = false ∧ isQuote c = false := by
    simp only [isSeparator, Bool.or_eq_true, beq_iff_eq] at separator
    rcases separator with rfl | rfl <;> decide
  intro rest
  simp [item, depthBehind, plain]

theorem passes_bracketed {depth : Nat} {s : Text} {start close : Char}
    (opens : isOpening start = true) (closes : isClosing close = true)
    (inside : Passes (depth + 1) s) : Passes depth (start :: (s ++ [close])) := by
  have first : isSeparator start = false ∧ isQuote start = false := by
    simp only [isOpening, Bool.or_eq_true, beq_iff_eq] at opens
    rcases opens with ((rfl | rfl) | rfl) | rfl <;> decide
  have last : isOpening close = false ∧ isQuote close = false := by
    simp only [isClosing, Bool.or_eq_true, beq_iff_eq] at closes
    rcases closes with ((rfl | rfl) | rfl) | rfl <;> decide
  intro rest
  have cut := inside ([close] ++ rest)
  simp only [List.singleton_append] at cut
  simp [item, depthBehind, first, last, opens, closes, cut]

/-- Behind its opening mark a quoted string is passed over up to the mark that closes it. -/
theorem item_quoted {quote : Char} {body : Text} (depth : Nat) (plain : quote ≠ '\\')
    (closed : Text.closesAtEnd quote body = true) (rest : Text) :
    item depth (some quote) (body ++ rest) = body ++ item depth none rest := by
  refine Text.closesAtEnd_induction
    (motive := fun body => item depth (some quote) (body ++ rest) = body ++ item depth none rest)
    ?_ ?_ ?_ closed
  · simp [item, plain]
  · intro c s ih
    simp [item, ih]
  · intro c s backslash other ih
    simp [item, backslash, other, ih]

theorem passes_quoted {depth : Nat} {s : Text} (quoted : DocType.isQuoted s = true) :
    Passes depth s := by
  obtain ⟨quote, body, rfl, mark, closed⟩ := (DocType.isQuoted_iff s).mp quoted
  have plain : quote ≠ '\\' ∧ isSeparator quote = false ∧ isOpening quote = false ∧
      isClosing quote = false ∧ isQuote quote = true := by
    rcases mark with rfl | rfl <;> decide
  intro rest
  simp [item, depthBehind, plain, item_quoted depth plain.1 closed rest]

/-- At every depth at which it may stand, the cut goes over what is spelled as types are. -/
theorem Spelled.passes {nested : Bool} {s : Text} (spelled : Spelled nested s) :
    ∀ depth, (nested = true → 0 < depth) → Passes depth s := by
  -- what is in brackets is passed over one deeper
  induction spelled with
  | nil => exact fun depth _ => passes_nil depth
  | mark plain => exact fun depth _ => passes_inert (Bool.and_eq_true_iff.mp plain).1
  | separator mark =>
      intro depth inside
      obtain ⟨below, rfl⟩ := Nat.exists_eq_succ_of_ne_zero (Nat.ne_of_gt (inside rfl))
      exact passes_separator mark
  | quoted word => exact fun depth _ => passes_quoted word
  | bracketed opens closes _ ih =>
      exact fun depth _ =>
        passes_bracketed opens closes (ih (depth + 1) fun _ => Nat.succ_pos depth)
  | append _ _ first second =>
      exact fun depth inside => (first depth inside).append (second depth inside)

/-- Outside of brackets and quotes, no separator stands in the text of a type that was read. -/
theorem passes_text {type : DocType} (shaped : DocType.WellShaped type) (depth : Nat) :
    Passes depth type.text :=
  (spelled_text shaped false).passes depth (fun within => by cases within)

/-- An item of a line: it is there, and the cut goes over it. -/
def IsItem (s : Text) : Prop := s ≠ [] ∧ Passes 0 s

theorem item_eq {s rest : Text} {c : Char} (passes : Passes 0 s)
    (separator : isSeparator c = true) : item 0 none (s ++ c :: rest) = s := by
  rw [passes]
  simp [item, separator]

/-- Two texts that begin with an item and a separator begin with the same ones. -/
theorem item_cancel {s t rest more : Text} {c d : Char} (first : Passes 0 s) (second : Passes 0 t)
    (ends : isSeparator c = true) (stops : isSeparator d = true)
    (same : s ++ c :: rest = t ++ d :: more) : s = t ∧ c = d ∧ rest = more := by
  have items : s = t := by rw [← item_eq first ends, same, item_eq second stops]
  subst items
  have tails := List.append_cancel_left same
  exact ⟨rfl, (List.cons.inj tails).1, (List.cons.inj tails).2⟩

/-- The items of a set behind its first one, up to the semicolon behind the set. -/
def moreItems (items : List Text) (rest : Text) : Text :=
  items.flatMap ([','] ++ ·) ++ ';' :: rest

theorem moreItems_head (items : List Text) (rest : Text) :
    ∃ c more, moreItems items rest = c :: more ∧ isSeparator c = true := by
  cases items with
  | nil => exact ⟨';', rest, rfl, rfl⟩
  | cons second items => exact ⟨',', _, rfl, rfl⟩

/-- An item and what is behind it in a set. -/
theorem item_moreItems_cancel {s t rest more : Text} {items others : List Text}
    (first : Passes 0 s) (second : Passes 0 t)
    (same : s ++ moreItems items rest = t ++ moreItems others more) :
    s = t ∧ moreItems items rest = moreItems others more := by
  obtain ⟨c, behind, here, ends⟩ := moreItems_head items rest
  obtain ⟨d, ahead, there, stops⟩ := moreItems_head others more
  rw [here, there] at same ⊢
  obtain ⟨items, marks, tails⟩ := item_cancel first second ends stops same
  exact ⟨items, by rw [marks, tails]⟩

theorem moreItems_cancel {items others : List Text} {rest more : Text}
    (passes : ∀ s ∈ items, Passes 0 s) (pass : ∀ s ∈ others, Passes 0 s)
    (same : moreItems items rest = moreItems others more) : items = others ∧ rest = more := by
  induction items generalizing others with
  | nil =>
      cases others with
      | nil => exact ⟨rfl, (List.cons.inj same).2⟩
      | cons t others => cases (List.cons.inj same).1
  | cons s items ih =>
      cases others with
      | nil => cases (List.cons.inj same).1
      | cons t others =>
          obtain ⟨here, later⟩ := List.forall_mem_cons.mp passes
          obtain ⟨there, further⟩ := List.forall_mem_cons.mp pass
          have behind : s ++ moreItems items rest = t ++ moreItems others more := by
            simpa [moreItems] using same
          obtain ⟨rfl, tails⟩ := item_moreItems_cancel here there behind
          obtain ⟨rfl, rests⟩ := ih later further tails
          exact ⟨rfl, rests⟩

/-- No item begins with the semicolon that stands behind the empty set. -/
theorem head_ne_of_isItem {s : Text} (isItem : IsItem s) : s.head? ≠ some ';' := by
  obtain ⟨visible, passes⟩ := isItem
  intro head
  obtain ⟨more, rfl⟩ := List.head?_eq_some_iff.mp head
  have cut := passes []
  simp [item, isSeparator] at cut

theorem join_cancel {items others : List Text} {rest more : Text}
    (isItems : ∀ s ∈ items, IsItem s) (areItems : ∀ s ∈ others, IsItem s)
    (same : Text.join [','] items ++ ';' :: rest = Text.join [','] others ++ ';' :: more) :
    items = others ∧ rest = more := by
  have apart : ∀ (s rest more : Text) (others : List Text), IsItem s →
      ';' :: rest ≠ s ++ moreItems others more := by
    intro s rest more others isItem equal
    obtain ⟨c, front, rfl⟩ := List.exists_cons_of_ne_nil isItem.1
    exact head_ne_of_isItem isItem (by rw [← (List.cons.inj equal).1]; rfl)
  cases items with
  | nil =>
      cases others with
      | nil => exact ⟨rfl, (List.cons.inj same).2⟩
      | cons t others =>
          rw [Text.join_cons, List.append_assoc] at same
          exact absurd same (apart t rest more others (areItems t List.mem_cons_self))
  | cons s items =>
      cases others with
      | nil =>
          rw [Text.join_cons, List.append_assoc] at same
          exact absurd same.symm (apart s more rest items (isItems s List.mem_cons_self))
      | cons t others =>
          rw [Text.join_cons, Text.join_cons, List.append_assoc, List.append_assoc] at same
          obtain ⟨here, later⟩ := List.forall_mem_cons.mp isItems
          obtain ⟨there, further⟩ := List.forall_mem_cons.mp areItems
          obtain ⟨rfl, tails⟩ := item_moreItems_cancel here.2 there.2 same
          obtain ⟨rfl, rests⟩ := moreItems_cancel (fun s found => (later s found).2)
            (fun s found => (further s found).2) tails
          exact ⟨rfl, rests⟩

def setsText (sets : List TypeSet) : Text := sets.flatMap fun set => setText set ++ [';', ' ']

theorem line_eq (signature : Signature) :
    signature.line =
      signature.name ++ ';' :: ' ' :: setsText (signature.results :: signature.parameters) := by
  simp [line, setsText, List.flatMap_map]

theorem setsText_cancel {sets others : List TypeSet}
    (isItems : ∀ set ∈ sets, ∀ s ∈ set, IsItem s) (areItems : ∀ set ∈ others, ∀ s ∈ set, IsItem s)
    (same : setsText sets = setsText others) : sets = others := by
  induction sets generalizing others with
  | nil =>
      cases others with
      | nil => rfl
      | cons set others => simp [setsText] at same
  | cons set sets ih =>
      cases others with
      | nil => simp [setsText] at same
      | cons other others =>
          obtain ⟨here, later⟩ := List.forall_mem_cons.mp isItems
          obtain ⟨there, further⟩ := List.forall_mem_cons.mp areItems
          have unfolded : Text.join [','] set.texts ++ ';' :: ' ' :: setsText sets =
              Text.join [','] other.texts ++ ';' :: ' ' :: setsText others := by
            simpa [setsText, setText] using same
          obtain ⟨texts, tails⟩ := join_cancel here there unfolded
          have sameSet : set = other :=
            TypeSet.ext_mem fun s => by rw [TypeSet.mem_def, TypeSet.mem_def, texts]
          rw [sameSet, ih later further (List.cons.inj tails).2]

theorem name_cancel {name other rest more : Text} (plain : ';' ∉ name) (bare : ';' ∉ other)
    (same : name ++ ';' :: rest = other ++ ';' :: more) : name = other ∧ rest = more := by
  have cut : ∀ name rest : Text, ';' ∉ name →
      (name ++ ';' :: rest).takeWhile (fun c => c != ';') = name := by
    intro name rest plain
    refine takeWhile_word _ name (';' :: rest) ?_ (by simp)
    intro c found
    exact bne_iff_ne.mpr fun mark => plain (mark ▸ found)
  have names : name = other := by rw [← cut name rest plain, same, cut other more bare]
  subst names
  exact ⟨rfl, (List.cons.inj (List.append_cancel_left same)).2⟩

/-- The text of a tree that was read from some text. -/
def IsTypeText (s : Text) : Prop :=
  ∃ source type rest, DocType.parseType source = .ok (type, rest) ∧ s = type.text

/-- Every type of a signature is one that was read. -/
def IsTyped (signature : Signature) : Prop :=
  ∀ set ∈ signature.results :: signature.parameters, ∀ s ∈ set, IsTypeText s

theorem IsTypeText.isItem {s : Text} (read : IsTypeText s) : IsItem s := by
  obtain ⟨source, type, rest, given, rfl⟩ := read
  have shaped := DocType.wellShaped_of_parseType given
  exact ⟨shaped.text_ne_nil, passes_text shaped 0⟩

theorem IsTyped.items {signature : Signature} (typed : signature.IsTyped) :
    ∀ set ∈ signature.results :: signature.parameters, ∀ s ∈ set, IsItem s :=
  fun set inside s found => (typed set inside s found).isItem

/-- Signatures with one line are one signature, if no semicolon stands in their names and their
types are types that were read. -/
theorem line_injective {one other : Signature} (plain : ';' ∉ one.name) (bare : ';' ∉ other.name)
    (typed : one.IsTyped) (types : other.IsTyped) (same : one.line = other.line) : one = other := by
  rw [line_eq, line_eq] at same
  obtain ⟨names, tails⟩ := name_cancel plain bare same
  have sets := setsText_cancel typed.items types.items (List.cons.inj tails).2
  obtain ⟨results, parameters⟩ := List.cons.inj sets
  cases one
  cases other
  simp_all

def separatedSignature : Signature :=
  ⟨"App\\C::make".toList,
    [TypeSet.ofList ["Map<'k;', Pair<A, B>>".toList, "null".toList], TypeSet.ofList []],
    TypeSet.ofList ["array\x7b'a\\',; b': int, n?: \"it's; \"\x7d".toList]⟩

def repeatedSignature : Signature :=
  ⟨"App\\C::make".toList,
    [TypeSet.ofList ["null".toList, "Map<'k;', Pair<A, B>>".toList, "null".toList],
      TypeSet.ofList []],
    TypeSet.ofList ["array\x7b'a\\',; b': int, n?: \"it's; \"\x7d".toList]⟩

example : separatedSignature.line =
    ("App\\C::make; array\x7b'a\\',; b': int, n?: \"it's; \"\x7d; " ++
      "Map<'k;', Pair<A, B>>,null; ; ").toList := by
  decide +kernel

/-- A text that is read as a tree of that very text. -/
theorem isTypeText_of_canonical {s : Text}
    (canonical : ((DocType.parseType s).toOption.any fun read => read.1.text == s) = true) :
    IsTypeText s := by
  cases read : DocType.parseType s with
  | error fault =>
      rw [read] at canonical
      cases canonical
  | ok given =>
      rw [read] at canonical
      exact ⟨s, given.1, given.2, read, (beq_iff_eq.mp canonical).symm⟩

theorem separatedSignature_eq_repeated :
    ';' ∉ separatedSignature.name ∧ ';' ∉ repeatedSignature.name ∧ separatedSignature.IsTyped ∧
      repeatedSignature.IsTyped ∧ separatedSignature.line = repeatedSignature.line ∧
      separatedSignature = repeatedSignature := by
  have map : IsTypeText "Map<'k;', Pair<A, B>>".toList :=
    isTypeText_of_canonical (by decide +kernel)
  have null : IsTypeText "null".toList := isTypeText_of_canonical (by decide +kernel)
  have array : IsTypeText "array\x7b'a\\',; b': int, n?: \"it's; \"\x7d".toList :=
    isTypeText_of_canonical (by decide +kernel)
  have ofList : ∀ texts : List Text, (∀ s ∈ texts, IsTypeText s) →
      ∀ s ∈ TypeSet.ofList texts, IsTypeText s :=
    fun texts all s found => all s (TypeSet.mem_ofList.mp found)
  have arrays := ofList [_] (List.forall_mem_cons.mpr ⟨array, nofun⟩)
  have maps := ofList [_, _]
    (List.forall_mem_cons.mpr ⟨map, List.forall_mem_cons.mpr ⟨null, nofun⟩⟩)
  have repeated := ofList [_, _, _] (List.forall_mem_cons.mpr
    ⟨null, List.forall_mem_cons.mpr ⟨map, List.forall_mem_cons.mpr ⟨null, nofun⟩⟩⟩)
  have typed : separatedSignature.IsTyped := List.forall_mem_cons.mpr
    ⟨arrays, List.forall_mem_cons.mpr ⟨maps, List.forall_mem_cons.mpr ⟨nofun, nofun⟩⟩⟩
  have types : repeatedSignature.IsTyped := List.forall_mem_cons.mpr
    ⟨arrays, List.forall_mem_cons.mpr ⟨repeated, List.forall_mem_cons.mpr ⟨nofun, nofun⟩⟩⟩
  have plain : ';' ∉ separatedSignature.name := by decide
  have bare : ';' ∉ repeatedSignature.name := by decide
  have same : separatedSignature.line = repeatedSignature.line := by decide +kernel
  exact ⟨plain, bare, typed, types, same, line_injective plain bare typed types same⟩

end Signature

end DocSig
