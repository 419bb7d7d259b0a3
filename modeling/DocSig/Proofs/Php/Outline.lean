import DocSig.Proofs.Outline.Scoping
import DocSig.Proofs.Php.Planting

/-!
What stands where in the outline of a source.

The induction over the syntax is made once, with one case for each construct: what is kept from the
parts of a construct to its nodes holds of the nodes of all statements (`Built.ofStatements`).

`NodeKind.admits` says which node may stand directly below which, and `Node.Sound` what holds of
a node by itself. Both hold throughout the nodes of any statement or expression (`Below`).
-/

set_option autoImplicit false

namespace DocSig

namespace NodeKind

/-- A function that is a member of a class. -/
def isMethod : NodeKind → Bool
  | .function .method _ | .function .staticMethod _ => true
  | _ => false

/-- A class name in a type or in the head of a class. -/
def isReference : NodeKind → Bool
  | .reference _ => true
  | _ => false

/-- A node with code below it. -/
def holdsCode : NodeKind → Bool
  | .program | .block | .space _ | .function _ _ => true
  | .imports _ | .classLike _ _ _ | .reference _ => false

/-- Whether a node may stand directly below another one. -/
def admits (above below : NodeKind) : Bool :=
  if above.holdsCode then below != .program && !below.isMethod
  else above.isClassLike && (below.isReference || below.isMethod)

theorem admits_reference {above : NodeKind} (room : (above.holdsCode || above.isClassLike) = true)
    (name : Text) : above.admits (.reference name) = true := by
  unfold admits
  cases code : above.holdsCode with
  | true => rfl
  | false =>
      rw [code, Bool.false_or] at room
      simp [room, isReference]

/-- Only a class admits methods. -/
theorem isClassLike_of_admits {above below : NodeKind} (admitted : above.admits below = true)
    (method : below.isMethod = true) : above.isClassLike = true := by
  unfold admits at admitted
  split at admitted
  · simp [method] at admitted
  · exact (Bool.and_eq_true_iff.mp admitted).1

/-- A class admits class names and methods. -/
theorem member_of_admits {above below : NodeKind} (admitted : above.admits below = true)
    (classLike : above.isClassLike = true) : (below.isReference || below.isMethod) = true := by
  unfold admits at admitted
  split at admitted
  · next code => cases above <;> simp [holdsCode, isClassLike] at code classLike
  · exact (Bool.and_eq_true_iff.mp admitted).2

theorem not_program_of_admits {above below : NodeKind} (admitted : above.admits below = true) :
    below ≠ .program := by
  rintro rfl
  unfold admits at admitted
  split at admitted
  · cases admitted
  · simp [isReference, isMethod] at admitted

theorem admits_leaf {above : NodeKind} (leaf : Lexical.isLeaf above = true) (below : NodeKind) :
    above.admits below = false := by
  cases above <;> simp_all [Lexical.isLeaf, admits, holdsCode, isClassLike]

end NodeKind

/-- What holds of a node by itself: a list of imports is not empty, only a function has a comment,
and a class without a name of its own goes by the common one. -/
structure Node.Sound (node : Node) : Prop where
  imports : ∀ list, node.kind = .imports list → list ≠ []
  comment : node.comment.isSome = true → node.kind.function?.isSome = true
  anonymous : ∀ name parent, node.kind = .classLike .anonymous name parent →
    name = anonymousClassName

namespace Php

open Rose

/-- Trees that may stand below a node: each of them may, and what is in them is where it may
be. -/
structure Below (above : NodeKind) (trees : List (Rose Node)) : Prop where
  admitted : ∀ tree ∈ trees, above.admits tree.label.kind = true
  sound : ∀ tree ∈ preorderAll trees, tree.label.Sound
  placed : ∀ tree ∈ preorderAll trees, ∀ child ∈ tree.children,
    tree.label.kind.admits child.label.kind = true

variable {above : NodeKind} {trees others : List (Rose Node)}

theorem Below.sound_of_mem (below : Below above trees) {node : Node}
    (found : node ∈ labelsAll trees) : node.Sound := by
  obtain ⟨tree, inside, rfl⟩ := List.mem_map.mp found
  exact below.sound tree inside

/-- The program stands below nothing. -/
theorem Below.not_program (below : Below above trees) {node : Node}
    (found : node ∈ labelsAll trees) : node.kind ≠ .program := by
  rcases mem_or_mem_children trees node found with
    ⟨tree, here, rfl⟩ | ⟨tree, here, child, under, rfl⟩
  · exact NodeKind.not_program_of_admits (below.admitted tree here)
  · exact NodeKind.not_program_of_admits (below.placed tree here child under)

theorem program_sound : Outline.program.Sound where
  imports := fun _ same => nomatch same
  comment := fun commented => nomatch commented
  anonymous := fun _ _ same => nomatch same

theorem below_nil : Below above [] where
  admitted := fun _ found => nomatch found
  sound := fun _ found => nomatch found
  placed := fun _ found => nomatch found

theorem Below.append (left : Below above trees) (right : Below above others) :
    Below above (trees ++ others) where
  admitted := List.forall_mem_append.mpr ⟨left.admitted, right.admitted⟩
  sound := by
    rw [preorderAll_append]
    exact List.forall_mem_append.mpr ⟨left.sound, right.sound⟩
  placed := by
    rw [preorderAll_append]
    exact List.forall_mem_append.mpr ⟨left.placed, right.placed⟩

theorem Below.cons {tree : Rose Node} (first : Below above [tree]) (rest : Below above trees) :
    Below above (tree :: trees) := first.append rest

theorem below_branch {node : Node} (admitted : above.admits node.kind = true) (sound : node.Sound)
    (below : Below node.kind trees) : Below above [.branch node trees] where
  admitted := fun tree found => by
    rw [List.mem_singleton.mp found]
    exact admitted
  sound := by
    rw [preorderAll, preorder, preorderAll, List.append_nil, List.forall_mem_cons]
    exact ⟨sound, below.sound⟩
  placed := by
    rw [preorderAll, preorder, preorderAll, List.append_nil, List.forall_mem_cons]
    exact ⟨below.admitted, below.placed⟩

/-- What may stand in a block may stand wherever there is code. -/
theorem Below.code (block : Below .block trees) (code : above.holdsCode = true) :
    Below above trees where
  admitted := fun tree found => by
    rw [← block.admitted tree found, NodeKind.admits, if_pos code]
    rfl
  sound := block.sound
  placed := block.placed

/-- Each node of some trees has a property. -/
def Each (holds : Node → Prop) (trees : List (Rose Node)) : Prop :=
  ∀ node ∈ labelsAll trees, holds node

namespace SourceText

variable (source : SourceText)

theorem sound_node {kind : NodeKind} (start : Nat)
    (imports : ∀ list, kind = .imports list → list ≠ [])
    (anonymous : ∀ name parent, kind = .classLike .anonymous name parent →
      name = anonymousClassName) : (source.node start kind).Sound where
  imports := imports
  comment := fun commented => nomatch commented
  anonymous := anonymous

theorem sound_functionNode (start : Nat) (kind : FunctionKind) (name : Text) :
    (source.functionNode start kind name).Sound where
  imports := fun _ same => nomatch same
  comment := fun _ => rfl
  anonymous := fun _ _ same => nomatch same

theorem below_reference (room : (above.holdsCode || above.isClassLike) = true) (word : Word) :
    Below above [source.reference word] :=
  below_branch (NodeKind.admits_reference room word.text)
    (source.sound_node word.start (fun _ same => nomatch same) fun _ _ same => nomatch same)
    below_nil

theorem below_references (room : (above.holdsCode || above.isClassLike) = true)
    (words : List Word) : Below above (words.map source.reference) := by
  induction words with
  | nil => exact below_nil
  | cons word words ih => exact (source.below_reference room word).cons ih

/-- Two properties, of the trees of code and of those of a class's members, that hold of what a
construct is made of if they hold of what its parts are made of. -/
structure Built (Code Members : List (Rose Node) → Prop) : Prop where
  nil : Code []
  append : ∀ {trees others}, Code trees → Code others → Code (trees ++ others)
  reference : ∀ word, Code [source.reference word]
  block : ∀ start {trees}, Code trees → Code [.branch (source.node start .block) trees]
  space : ∀ start name {trees}, Code trees →
    Code [.branch (source.node start (.space name)) trees]
  imports : ∀ start {list}, list ≠ [] → Code [.branch (source.node start (.imports list)) []]
  class_ : ∀ start {kind name} parent (words : List Word) {members},
    (kind = .anonymous → name = anonymousClassName) → Members members →
      Code [.branch (source.node start (.classLike kind name parent))
        (words.map source.reference ++ members)]
  function : ∀ start name {trees}, Code trees →
    Code [.branch (source.functionNode start .free name) trees]
  noMembers : Members []
  method : ∀ start {kind} name {trees members}, kind ≠ .free → Code trees → Members members →
    Members (.branch (source.functionNode start kind name) trees :: members)

section

variable {source} {Code Members : List (Rose Node) → Prop}

theorem Built.references (built : source.Built Code Members) (words : List Word) :
    Code (words.map source.reference) := by
  induction words with
  | nil => exact built.nil
  | cons word words ih => exact built.append (built.reference word) ih

/-- The class names of a head with the code behind them. -/
theorem Built.headed (built : source.Built Code Members) (head : Head) {trees : List (Rose Node)}
    (body : Code trees) : Code (head.words.map source.reference ++ trees) :=
  built.append (built.references head.words) body

mutual

/-- One case for each expression. -/
theorem Built.ofExpr (built : source.Built Code Members) : ∀ expr : Expr, Code (source.ofExpr expr)
  | .atom | .callable _ | .destructure _ | .index _ _ | .construct _ | .template _ => by
      rw [SourceText.ofExpr]
      exact built.nil
  | .parenthesized inner | .unary inner | .member inner => by
      rw [SourceText.ofExpr]
      exact built.ofExpr inner
  | .binary left right => by
      rw [SourceText.ofExpr]
      exact built.append (built.ofExpr left) (built.ofExpr right)
  | .conditional condition positive negative => by
      rw [SourceText.ofExpr]
      exact built.append (built.ofExpr condition)
        (built.append (built.ofOption positive) (built.ofExpr negative))
  | .call callee arguments | .create callee arguments => by
      rw [SourceText.ofExpr]
      exact built.append (built.ofExpr callee) (built.ofExprs arguments)
  | .array elements | .yields elements => by
      rw [SourceText.ofExpr]
      exact built.ofExprs elements
  | .choice subject arms => by
      rw [SourceText.ofExpr]
      exact built.append (built.ofExpr subject) (built.ofArms arms)
  | .closure start head body => by
      rw [SourceText.ofExpr]
      exact built.block start (built.headed head (built.ofStatements body))
  | .arrow start head body => by
      rw [SourceText.ofExpr]
      exact built.block start (built.headed head (built.ofExpr body))
  | .anonymousClass start arguments heritage members => by
      rw [SourceText.ofExpr]
      exact built.append (built.ofExprs arguments)
        (built.class_ start _ (heritage.words .anonymous) (fun _ => rfl) (built.ofMembers members))

theorem Built.ofOption (built : source.Built Code Members) :
    ∀ expr : Option Expr, Code (source.ofOption expr)
  | none => by
      rw [SourceText.ofOption]
      exact built.nil
  | some expr => by
      rw [SourceText.ofOption]
      exact built.ofExpr expr

theorem Built.ofExprs (built : source.Built Code Members) :
    ∀ exprs : List Expr, Code (source.ofExprs exprs)
  | [] => by
      rw [SourceText.ofExprs]
      exact built.nil
  | expr :: exprs => by
      rw [SourceText.ofExprs]
      exact built.append (built.ofExpr expr) (built.ofExprs exprs)

theorem Built.ofArms (built : source.Built Code Members) :
    ∀ arms : List Arm, Code (source.ofArms arms)
  | [] => by
      rw [SourceText.ofArms]
      exact built.nil
  | .arm _ result :: arms => by
      rw [SourceText.ofArms]
      exact built.append (built.ofExpr result) (built.ofArms arms)

/-- One case for each statement. -/
theorem Built.ofStatement (built : source.Built Code Members) :
    ∀ statement : Statement, Code (source.ofStatement statement)
  | .inert => by
      rw [SourceText.ofStatement]
      exact built.nil
  | .space start name body => by
      rw [SourceText.ofStatement]
      exact built.space start _ (built.ofStatements body)
  | .uses start items => by
      rw [SourceText.ofStatement]
      split
      · exact built.nil
      · next imported => exact built.imports start (by simpa using imported)
  | .classLike start kind name heritage members => by
      rw [SourceText.ofStatement]
      refine built.class_ start _ (heritage.words _) (fun anonymous => ?_) (built.ofMembers members)
      cases kind <;> cases anonymous
  | .function start name head body => by
      rw [SourceText.ofStatement]
      exact built.function start name (built.headed head (built.ofStatements body))
  | .block start body | .directive start body => by
      rw [SourceText.ofStatement]
      exact built.block start (built.ofStatements body)
  | .branches start condition body clauses => by
      rw [SourceText.ofStatement]
      exact built.block start
        (built.append (built.ofExpr condition)
          (built.append (built.ofStatements body) (built.ofBodies clauses)))
  | .guarded start body handlers => by
      rw [SourceText.ofStatement]
      exact built.block start (built.append (built.ofStatements body) (built.ofBodies handlers))
  | .forEach start subject body | .whileLoop start subject body => by
      rw [SourceText.ofStatement]
      exact built.block start (built.append (built.ofExpr subject) (built.ofStatements body))
  | .doLoop start body condition => by
      rw [SourceText.ofStatement]
      exact built.block start (built.append (built.ofStatements body) (built.ofExpr condition))
  | .forLoop start header body => by
      rw [SourceText.ofStatement]
      exact built.block start (built.append (built.ofExprs header) (built.ofStatements body))
  | .switch start subject cases => by
      rw [SourceText.ofStatement]
      exact built.block start (built.append (built.ofExpr subject) (built.ofCases cases))
  | .expression value => by
      rw [SourceText.ofStatement]
      exact built.ofExpr value
  | .returns value => by
      rw [SourceText.ofStatement]
      exact built.ofOption value
  | .echo values => by
      rw [SourceText.ofStatement]
      exact built.ofExprs values

theorem Built.ofStatements (built : source.Built Code Members) :
    ∀ statements : List Statement, Code (source.ofStatements statements)
  | [] => by
      rw [SourceText.ofStatements]
      exact built.nil
  | statement :: statements => by
      rw [SourceText.ofStatements]
      exact built.append (built.ofStatement statement) (built.ofStatements statements)

theorem Built.ofBodies (built : source.Built Code Members) :
    ∀ clauses : List Clause, Code (source.ofBodies clauses)
  | [] => by
      rw [SourceText.ofBodies]
      exact built.nil
  | .clause _ body :: clauses => by
      rw [SourceText.ofBodies]
      exact built.append (built.ofStatements body) (built.ofBodies clauses)

theorem Built.ofCases (built : source.Built Code Members) :
    ∀ clauses : List Clause, Code (source.ofCases clauses)
  | [] => by
      rw [SourceText.ofCases]
      exact built.nil
  | .clause test body :: clauses => by
      rw [SourceText.ofCases]
      exact built.append (built.ofOption test)
        (built.append (built.ofStatements body) (built.ofCases clauses))

theorem Built.ofMembers (built : source.Built Code Members) :
    ∀ members : List Member, Members (source.ofMembers members)
  | [] => by
      rw [SourceText.ofMembers]
      exact built.noMembers
  | .other :: members => by
      rw [SourceText.ofMembers]
      exact built.ofMembers members
  | .method start isStatic name head body :: members => by
      rw [SourceText.ofMembers]
      refine built.method start name ?_ (built.headed head (built.ofStatements body))
        (built.ofMembers members)
      cases isStatic <;> nofun

end

end

section

variable {holds : Node → Prop}

theorem each_nil : Each holds [] := nofun

theorem each_append (left : Each holds trees) (right : Each holds others) :
    Each holds (trees ++ others) := by
  rw [Each, labelsAll_append]
  exact List.forall_mem_append.mpr ⟨left, right⟩

theorem each_branch {node : Node} (own : holds node) (below : Each holds trees) :
    Each holds [.branch node trees] := by
  rw [Each, labelsAll_cons, labels_branch]
  exact List.forall_mem_append.mpr ⟨List.forall_mem_cons.mpr ⟨own, below⟩, nofun⟩

theorem each_references (plain : ∀ start kind, holds (source.node start kind))
    (words : List Word) : Each holds (words.map source.reference) := by
  induction words with
  | nil => exact each_nil
  | cons word words ih => exact each_append (each_branch (plain word.start _) each_nil) ih

/-- What holds of each node that the source gives holds of all nodes of its trees. -/
theorem built_each (plain : ∀ start kind, holds (source.node start kind))
    (function : ∀ start kind name, holds (source.functionNode start kind name)) :
    source.Built (Each holds) (Each holds) where
  nil := each_nil
  append := each_append
  reference word := source.each_references plain [word]
  block start _ body := each_branch (plain start _) body
  space start _ _ body := each_branch (plain start _) body
  imports start _ _ := each_branch (plain start _) each_nil
  class_ start _ _ _ words _ _ members :=
    each_branch (plain start _) (each_append (source.each_references plain words) members)
  function start name _ body := each_branch (function start .free name) body
  noMembers := each_nil
  method start kind name _ _ _ body members :=
    each_append (each_branch (function start kind name) body) members

end

/-- What there is of code may stand in a block, and each method of a class directly below the
class. -/
theorem built_below : source.Built (Below .block)
    fun members => ∀ kind name parent, Below (.classLike kind name parent) members where
  nil := below_nil
  append left right := left.append right
  reference word := source.below_reference rfl word
  block start _ body := below_branch rfl
    (source.sound_node start (fun _ same => nomatch same) fun _ _ same => nomatch same) body
  space start name _ body := below_branch rfl
    (source.sound_node start (fun _ same => nomatch same) fun _ _ same => nomatch same)
    (body.code rfl)
  imports start list some := below_branch rfl
    (source.sound_node start (fun _ same => NodeKind.imports.inj same ▸ some)
      fun _ _ same => nomatch same) below_nil
  class_ start kind name parent words members named below := by
    refine below_branch rfl (source.sound_node start (fun _ same => nomatch same) ?_)
      ((source.below_references rfl words).append (below kind name parent))
    intro other parent same
    cases same
    exact named rfl
  function start name _ body :=
    below_branch rfl (source.sound_functionNode start .free name) (body.code rfl)
  noMembers _ _ _ := below_nil
  method start kind name trees members member body below class_ own parent := by
    refine Below.cons (below_branch ?_ (source.sound_functionNode start kind name) (body.code rfl))
      (below class_ own parent)
    cases kind with
    | free => exact absurd rfl member
    | method => rfl
    | staticMethod => rfl

end SourceText

end Php

end DocSig
