import DocSig.Outline.Names
import DocSig.Proofs.Outline.Grown

/-!
Lexical scope by looking around from a node.

A `Place` is a node with those around it. The namespace, the class and the imports at a place are
read off the nodes around it and the places before it in the source; no scope is handed on from
node to node here.
-/

set_option autoImplicit false

namespace DocSig

/-- A node with the nodes around it, nearest first. -/
structure Place where
  entry : Entry
  above : List Entry

namespace Outline

mutual

/-- The places of a tree in the order of the source. -/
def placesOf (above : List Entry) : Rose Entry → List Place
  | .branch entry children => ⟨entry, above⟩ :: placesBelow (entry :: above) children

def placesBelow (above : List Entry) : List (Rose Entry) → List Place
  | [] => []
  | tree :: trees => placesOf above tree ++ placesBelow above trees

end

def places (outline : Outline) : List Place := placesOf [] outline.root

mutual

theorem placesOf_entries (above : List Entry) : ∀ tree : Rose Entry,
    (placesOf above tree).map Place.entry = tree.labels
  | .branch entry children => by
      simp [placesOf, Rose.labels_branch, placesBelow_entries (entry :: above) children]

theorem placesBelow_entries (above : List Entry) : ∀ trees : List (Rose Entry),
    (placesBelow above trees).map Place.entry = Rose.labelsAll trees
  | [] => rfl
  | tree :: trees => by
      simp [placesBelow, Rose.labelsAll_cons, placesOf_entries above tree,
        placesBelow_entries above trees]

end

theorem places_entries (outline : Outline) :
    outline.places.map Place.entry = outline.root.labels := placesOf_entries [] outline.root

mutual

/-- Around a place of a tree stand nodes of the tree, and then what stands around the tree. -/
theorem above_of_mem_placesOf (above : List Entry) : ∀ (tree : Rose Entry) (place : Place),
    place ∈ placesOf above tree →
      ∃ inner, place.above = inner ++ above ∧ ∀ entry ∈ inner, entry ∈ tree.labels
  | .branch entry children, place, found => by
      rw [placesOf, List.mem_cons] at found
      rcases found with rfl | below
      · exact ⟨[], rfl, nofun⟩
      · obtain ⟨inner, around, within⟩ :=
          above_of_mem_placesBelow (entry :: above) children place below
        refine ⟨inner ++ [entry], by simp [around], ?_⟩
        intro other found
        rw [Rose.labels_branch]
        rcases List.mem_append.mp found with inside | same
        · exact List.mem_cons_of_mem entry (within other inside)
        · rw [List.mem_singleton.mp same]
          exact List.mem_cons_self

theorem above_of_mem_placesBelow (above : List Entry) :
    ∀ (trees : List (Rose Entry)) (place : Place), place ∈ placesBelow above trees →
      ∃ inner, place.above = inner ++ above ∧ ∀ entry ∈ inner, entry ∈ Rose.labelsAll trees
  | [], place, found => by cases found
  | tree :: trees, place, found => by
      rw [placesBelow, List.mem_append] at found
      rw [Rose.labelsAll_cons]
      rcases found with first | later
      · obtain ⟨inner, around, within⟩ := above_of_mem_placesOf above tree place first
        exact ⟨inner, around, fun entry found => List.mem_append_left _ (within entry found)⟩
      · obtain ⟨inner, around, within⟩ := above_of_mem_placesBelow above trees place later
        exact ⟨inner, around, fun entry found => List.mem_append_right _ (within entry found)⟩

end

end Outline

namespace NodeKind

def isSpace : NodeKind → Bool
  | .space _ => true
  | _ => false

/-- A node that imports within it do not leave. -/
def opensScope : NodeKind → Bool
  | .space _ | .classLike _ _ _ | .function .free _ => true
  | _ => false

def importList : NodeKind → List Import
  | .imports list => list
  | _ => []

end NodeKind

namespace Lexical

/-- The name of the nearest namespace around a node. -/
def spaceOf (above : List Entry) : Option Text :=
  (above.find? fun entry => entry.kind.isSpace).bind fun entry => entry.kind.name?

/-- The nearest node around that imports do not leave; outside of all such nodes it is the
outermost one. -/
def openerOf (above : List Entry) : Option Entry :=
  (above.find? fun entry => entry.kind.opensScope).or above.getLast?

/-- A node is met on the way out before any namespace is left. -/
def reaches (opener : Entry) : List Entry → Bool
  | [] => false
  | entry :: above => decide (entry = opener) || (!entry.kind.isSpace && reaches opener above)

/-- What is imported at a place is seen below `above`. -/
def isSeen (place : Place) (above : List Entry) : Bool :=
  (openerOf place.above).any fun opener => reaches opener above

/-- The imports that are seen below `above`, of those before it, in the order of the source. -/
def importsOf (before : List Place) (above : List Entry) : List Import :=
  before.flatMap fun place => if isSeen place above then place.entry.kind.importList else []

def importPairs (list : List Import) : List (Text × Text) :=
  (list.map fun item => (item.short.lower, item.target)).reverse

/-- The class around a node: the nearest node around that opens a scope, if it is a class. Its
names are told by what is in force where the class itself stands. -/
def classOf : List Entry → List Place → Option ClassContext
  | [], _ => none
  | entry :: above, before =>
    match entry.kind with
    | .classLike kind name parent =>
      let outside := before.takeWhile fun place => decide (place.entry ≠ entry)
      let scope : Scope := ⟨spaceOf above, importPairs (importsOf outside above),
        classOf above outside⟩
      some ⟨if kind = .anonymous then name else scope.qualify name,
        parent.map fun parent => (scope.resolve parent).name⟩
    | .space _ | .function .free _ => none
    | _ => classOf above before

/-- What names mean below `above`, behind the places `before`. -/
def scopeAt (before : List Place) (above : List Entry) : Scope :=
  ⟨spaceOf above, importPairs (importsOf before above), classOf above before⟩

/-- An import that is looked up is the last one of its name, in any letter case. -/
theorem lookup_importPairs (list : List Import) (short : Text) :
    (importPairs list).lookup short =
      (list.filter fun item => item.short.lower == short).getLast?.map Import.target := by
  have forward : ∀ items : List Import,
      (items.map fun item => (item.short.lower, item.target)).lookup short =
        (items.filter fun item => item.short.lower == short).head?.map Import.target := by
    intro items
    induction items with
    | nil => rfl
    | cons item items ih =>
        rw [List.map_cons, List.lookup_cons, List.filter_cons, ih]
        by_cases same : item.short.lower = short
        · simp [same]
        · have other : (item.short.lower == short) = false := by simpa using same
          have turned : (short == item.short.lower) = false := by simpa using Ne.symm same
          simp [other, turned]
  rw [importPairs, ← List.map_reverse, forward, List.filter_reverse, List.head?_reverse]

theorem importPairs_append (list more : List Import) :
    importPairs (list ++ more) = importPairs more ++ importPairs list := by
  simp [importPairs]

theorem importsOf_append (before more : List Place) (above : List Entry) :
    importsOf (before ++ more) above = importsOf before above ++ importsOf more above := by
  simp [importsOf]

theorem mem_of_openerOf {above : List Entry} {opener : Entry}
    (found : openerOf above = some opener) : opener ∈ above := by
  unfold openerOf at found
  rcases Option.or_eq_some_iff.mp found with nearest | ⟨-, last⟩
  · exact List.mem_of_find?_eq_some nearest
  · exact List.mem_of_getLast? last

/-- A node is met on the way out exactly if it is around and no namespace is nearer. -/
theorem reaches_iff {opener : Entry} {above : List Entry} :
    reaches opener above = true ↔
      ∃ nearer further, above = nearer ++ opener :: further ∧
        ∀ entry ∈ nearer, entry.kind.isSpace = false := by
  induction above with
  | nil => simp [reaches]
  | cons entry above ih =>
      simp only [reaches, Bool.or_eq_true, decide_eq_true_eq, Bool.and_eq_true, Bool.not_eq_true',
        ih]
      constructor
      · rintro (rfl | ⟨noSpace, nearer, further, rfl, plain⟩)
        · exact ⟨[], above, rfl, nofun⟩
        · exact ⟨entry :: nearer, further, rfl, List.forall_mem_cons.mpr ⟨noSpace, plain⟩⟩
      · rintro ⟨nearer, further, equal, plain⟩
        cases nearer with
        | nil => exact Or.inl (List.cons.inj equal).1
        | cons first nearer =>
            obtain ⟨rfl, rfl⟩ := List.cons.inj equal
            obtain ⟨noSpace, plain⟩ := List.forall_mem_cons.mp plain
            exact Or.inr ⟨noSpace, nearer, further, rfl, plain⟩

theorem mem_of_reaches {opener : Entry} {above : List Entry}
    (met : reaches opener above = true) : opener ∈ above := by
  obtain ⟨nearer, further, rfl, -⟩ := reaches_iff.mp met
  simp

theorem not_isSpace_of_plain {kind : NodeKind} (plain : kind.opensScope = false) :
    kind.isSpace = false := by
  cases kind with
  | space name => cases plain
  | _ => rfl

theorem importList_of_opens {kind : NodeKind} (opens : kind.opensScope = true) :
    kind.importList = [] := by
  cases kind with
  | imports list => cases opens
  | _ => rfl

/-- No namespace is left on the way out to the opener of a node itself. -/
theorem reaches_openerOf {above : List Entry} (nonempty : above ≠ []) :
    ∃ opener, openerOf above = some opener ∧ reaches opener above = true := by
  induction above with
  | nil => exact absurd rfl nonempty
  | cons entry above ih =>
      by_cases opens : entry.kind.opensScope = true
      · refine ⟨entry, ?_, by simp [reaches]⟩
        simp [openerOf, opens]
      · have noSpace := not_isSpace_of_plain (by simpa using opens)
        by_cases last : above = []
        · subst last
          refine ⟨entry, ?_, by simp [reaches]⟩
          simp [openerOf, opens]
        · obtain ⟨opener, found, met⟩ := ih last
          refine ⟨opener, ?_, by simp [reaches, noSpace, met]⟩
          rw [← found]
          simp [openerOf, opens, List.getLast?_cons_of_ne_nil last]

end Lexical

end DocSig
