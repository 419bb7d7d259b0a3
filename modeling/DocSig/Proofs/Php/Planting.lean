import DocSig.Php.Outline
import DocSig.Proofs.Outline.Numbering

/-!
The outline of a source as a list of trees.

`SourceText.ofStatements` gives the nodes of some statements as trees without numbers. To walk the
statements is to plant these trees (`plants_statements`): each push adds the node that comes next
in the preorder walk of the trees. So what holds of an outline that a source gives can be shown on
trees, and the numbers are the places in the walk (`outline_eq_ofForest`).
-/

set_option autoImplicit false

namespace DocSig.Php

open Outline

def Hint.words : Hint → List Word
  | .named word | .relative word => [word]
  | .builtin => []
  | .nullable inner | .grouped inner => inner.words
  | .union left right | .intersection left right => left.words ++ right.words

def Head.words (head : Head) : List Word :=
  (head.parameters ++ [head.result]).flatMap fun hint => (hint.map Hint.words).getD []

namespace SourceText

def reference (source : SourceText) (word : Word) : Rose Node :=
  .branch (source.node word.start (.reference word.text)) []

mutual

def ofExpr (source : SourceText) : Expr → List (Rose Node)
  | .atom | .callable _ | .destructure _ | .index _ _ | .construct _ | .template _ => []
  | .parenthesized inner | .unary inner | .member inner => ofExpr source inner
  | .binary left right => ofExpr source left ++ ofExpr source right
  | .conditional condition positive negative =>
    ofExpr source condition ++ (ofOption source positive ++ ofExpr source negative)
  | .call callee arguments => ofExpr source callee ++ ofExprs source arguments
  | .create class_ arguments => ofExpr source class_ ++ ofExprs source arguments
  | .array elements => ofExprs source elements
  | .choice subject arms => ofExpr source subject ++ ofArms source arms
  | .yields operands => ofExprs source operands
  | .closure start head body =>
    [.branch (source.node start .block)
      (head.words.map source.reference ++ ofStatements source body)]
  | .arrow start head body =>
    [.branch (source.node start .block) (head.words.map source.reference ++ ofExpr source body)]
  | .anonymousClass start arguments heritage members =>
    ofExprs source arguments ++
      [.branch (source.node start (.classLike .anonymous anonymousClassName heritage.parent?))
        ((heritage.words .anonymous).map source.reference ++ ofMembers source members)]

def ofOption (source : SourceText) : Option Expr → List (Rose Node)
  | none => []
  | some expr => ofExpr source expr

def ofExprs (source : SourceText) : List Expr → List (Rose Node)
  | [] => []
  | expr :: exprs => ofExpr source expr ++ ofExprs source exprs

def ofArms (source : SourceText) : List Arm → List (Rose Node)
  | [] => []
  | .arm _ result :: arms => ofExpr source result ++ ofArms source arms

def ofStatement (source : SourceText) : Statement → List (Rose Node)
  | .inert => []
  | .space start name body =>
    [.branch (source.node start (.space (name.filter (!·.isEmpty)))) (ofStatements source body)]
  | .uses start items =>
    if items.imports.isEmpty then []
    else [.branch (source.node start (.imports items.imports)) []]
  | .classLike start kind name heritage members =>
    let extended := if kind = .class_ then heritage.parent? else none
    [.branch (source.node start (.classLike kind.toClassKind name extended))
      ((heritage.words kind.toClassKind).map source.reference ++ ofMembers source members)]
  | .function start name head body =>
    [.branch (source.functionNode start .free name)
      (head.words.map source.reference ++ ofStatements source body)]
  | .block start body => [.branch (source.node start .block) (ofStatements source body)]
  | .branches start condition body clauses =>
    [.branch (source.node start .block)
      (ofExpr source condition ++ (ofStatements source body ++ ofBodies source clauses))]
  | .guarded start body handlers =>
    [.branch (source.node start .block) (ofStatements source body ++ ofBodies source handlers)]
  | .forEach start subject body =>
    [.branch (source.node start .block) (ofExpr source subject ++ ofStatements source body)]
  | .whileLoop start condition body =>
    [.branch (source.node start .block) (ofExpr source condition ++ ofStatements source body)]
  | .doLoop start body condition =>
    [.branch (source.node start .block) (ofStatements source body ++ ofExpr source condition)]
  | .forLoop start header body =>
    [.branch (source.node start .block) (ofExprs source header ++ ofStatements source body)]
  | .switch start subject cases =>
    [.branch (source.node start .block) (ofExpr source subject ++ ofCases source cases)]
  | .directive start body => [.branch (source.node start .block) (ofStatements source body)]
  | .expression value => ofExpr source value
  | .returns value => ofOption source value
  | .echo values => ofExprs source values

def ofStatements (source : SourceText) : List Statement → List (Rose Node)
  | [] => []
  | statement :: statements => ofStatement source statement ++ ofStatements source statements

/-- The nodes of the statements of some clauses, without their tests. -/
def ofBodies (source : SourceText) : List Clause → List (Rose Node)
  | [] => []
  | .clause _ body :: clauses => ofStatements source body ++ ofBodies source clauses

def ofCases (source : SourceText) : List Clause → List (Rose Node)
  | [] => []
  | .clause test body :: clauses =>
    ofOption source test ++ (ofStatements source body ++ ofCases source clauses)

def ofMembers (source : SourceText) : List Member → List (Rose Node)
  | [] => []
  | .other :: members => ofMembers source members
  | .method start isStatic name head body :: members =>
    .branch (source.functionNode start (if isStatic then .staticMethod else .method) name)
        (head.words.map source.reference ++ ofStatements source body) ::
      ofMembers source members

end

end SourceText

/-- The steps push the nodes of some trees below a node, and nothing else. -/
def Plants (parent : Nat) (steps : Growing Unit) (trees : List (Rose Node)) : Prop :=
  ∀ outline, steps outline = ((), plantAll parent trees outline)

section

variable {parent : Nat} {steps later : Growing Unit} {trees others : List (Rose Node)}

theorem plants_nil : Plants parent (return ()) [] := fun outline => by
  rw [plantAll]
  rfl

theorem Plants.append (first : Plants parent steps trees) (second : Plants parent later others) :
    Plants parent (do steps; later) (trees ++ others) := fun outline => by
  rw [plantAll_append, ← second]
  show later (steps outline).2 = _
  rw [first]

/-- A node is pushed before all that stands below it, which goes to the number that it got. -/
theorem plants_branch {node : Node} {below : Nat → Growing Unit}
    (planted : ∀ id, Plants id (below id) trees) :
    Plants parent (do let id ← add parent node; below id) [.branch node trees] := fun outline => by
  rw [plantAll, plantAll, plant, ← planted]
  rfl

theorem Plants.cons {tree : Rose Node} (first : Plants parent steps [tree])
    (second : Plants parent later others) : Plants parent (do steps; later) (tree :: others) :=
  first.append second

end

namespace SourceText

variable (source : SourceText)

theorem plants_reference (parent : Nat) (word : Word) :
    Plants parent (source.addReference parent word) [source.reference word] :=
  plants_branch fun _ => plants_nil

theorem plants_references (parent : Nat) : ∀ words : List Word,
    Plants parent (source.addReferences parent words) (words.map source.reference)
  | [] => plants_nil
  | word :: words => (source.plants_reference parent word).cons (plants_references parent words)

theorem plants_hint (parent : Nat) : ∀ hint : Hint,
    Plants parent (source.addHint parent hint) (hint.words.map source.reference)
  | .named word | .relative word => source.plants_reference parent word
  | .builtin => plants_nil
  | .nullable inner | .grouped inner => plants_hint parent inner
  | .union left right | .intersection left right => by
      rw [Hint.words, List.map_append]
      exact (plants_hint parent left).append (plants_hint parent right)

theorem plants_hints (parent : Nat) : ∀ hints : List (Option Hint),
    Plants parent (source.addHints parent hints)
      ((hints.flatMap fun hint => (hint.map Hint.words).getD []).map source.reference)
  | [] => plants_nil
  | none :: hints => plants_hints parent hints
  | some hint :: hints => by
      rw [List.flatMap_cons, List.map_append]
      exact (source.plants_hint parent hint).append (plants_hints parent hints)

theorem plants_head (parent : Nat) (head : Head) :
    Plants parent (source.addHead parent head) (head.words.map source.reference) := by
  rw [Head.words, List.flatMap_append, List.map_append]
  exact (source.plants_hints parent head.parameters).append
    (source.plants_hints parent [head.result])

mutual

/-- One case for each expression. -/
theorem plants_expr (parent : Nat) : ∀ expr : Expr,
    Plants parent (source.addExpr parent expr) (source.ofExpr expr)
  | .atom | .callable _ | .destructure _ | .index _ _ | .construct _ | .template _ => by
      rw [addExpr, ofExpr]
      exact plants_nil
  | .parenthesized inner | .unary inner | .member inner => by
      rw [addExpr, ofExpr]
      exact plants_expr parent inner
  | .binary left right => by
      rw [addExpr, ofExpr]
      exact (plants_expr parent left).append (plants_expr parent right)
  | .conditional condition positive negative => by
      rw [addExpr, ofExpr]
      exact (plants_expr parent condition).append
        ((plants_option parent positive).append (plants_expr parent negative))
  | .call callee arguments | .create callee arguments => by
      rw [addExpr, ofExpr]
      exact (plants_expr parent callee).append (plants_exprs parent arguments)
  | .array elements | .yields elements => by
      rw [addExpr, ofExpr]
      exact plants_exprs parent elements
  | .choice subject arms => by
      rw [addExpr, ofExpr]
      exact (plants_expr parent subject).append (plants_arms parent arms)
  | .closure start head body => by
      rw [addExpr, ofExpr]
      exact plants_branch fun id => (source.plants_head id head).append (plants_statements id body)
  | .arrow start head body => by
      rw [addExpr, ofExpr]
      exact plants_branch fun id => (source.plants_head id head).append (plants_expr id body)
  | .anonymousClass start arguments heritage members => by
      rw [addExpr, ofExpr]
      exact (plants_exprs parent arguments).append
        (plants_branch fun id => (source.plants_references id _).append (plants_members id members))

theorem plants_option (parent : Nat) : ∀ expr : Option Expr,
    Plants parent (source.addOption parent expr) (source.ofOption expr)
  | none => by
      rw [addOption, ofOption]
      exact plants_nil
  | some expr => by
      rw [addOption, ofOption]
      exact plants_expr parent expr

theorem plants_exprs (parent : Nat) : ∀ exprs : List Expr,
    Plants parent (source.addExprs parent exprs) (source.ofExprs exprs)
  | [] => by
      rw [addExprs, ofExprs]
      exact plants_nil
  | expr :: exprs => by
      rw [addExprs, ofExprs]
      exact (plants_expr parent expr).append (plants_exprs parent exprs)

theorem plants_arms (parent : Nat) : ∀ arms : List Arm,
    Plants parent (source.addArms parent arms) (source.ofArms arms)
  | [] => by
      rw [addArms, ofArms]
      exact plants_nil
  | .arm _ result :: arms => by
      rw [addArms, ofArms]
      exact (plants_expr parent result).append (plants_arms parent arms)

/-- One case for each statement. -/
theorem plants_statement (parent : Nat) : ∀ statement : Statement,
    Plants parent (source.addStatement parent statement) (source.ofStatement statement)
  | .inert => by
      rw [addStatement, ofStatement]
      exact plants_nil
  | .space start name body | .block start body | .directive start body => by
      rw [addStatement, ofStatement]
      exact plants_branch fun id => plants_statements id body
  | .uses start items => by
      rw [addStatement, ofStatement]
      split
      · exact plants_nil
      · exact plants_branch fun _ => plants_nil
  | .classLike start kind name heritage members => by
      rw [addStatement, ofStatement]
      exact plants_branch fun id =>
        (source.plants_references id _).append (plants_members id members)
  | .function start name head body => by
      rw [addStatement, ofStatement]
      exact plants_branch fun id => (source.plants_head id head).append (plants_statements id body)
  | .branches start condition body clauses => by
      rw [addStatement, ofStatement]
      exact plants_branch fun id => (plants_expr id condition).append
        ((plants_statements id body).append (plants_bodies id clauses))
  | .guarded start body handlers => by
      rw [addStatement, ofStatement]
      exact plants_branch fun id => (plants_statements id body).append (plants_bodies id handlers)
  | .forEach start subject body | .whileLoop start subject body => by
      rw [addStatement, ofStatement]
      exact plants_branch fun id => (plants_expr id subject).append (plants_statements id body)
  | .doLoop start body condition => by
      rw [addStatement, ofStatement]
      exact plants_branch fun id => (plants_statements id body).append (plants_expr id condition)
  | .forLoop start header body => by
      rw [addStatement, ofStatement]
      exact plants_branch fun id => (plants_exprs id header).append (plants_statements id body)
  | .switch start subject cases => by
      rw [addStatement, ofStatement]
      exact plants_branch fun id => (plants_expr id subject).append (plants_cases id cases)
  | .expression value => by
      rw [addStatement, ofStatement]
      exact plants_expr parent value
  | .returns value => by
      rw [addStatement, ofStatement]
      exact plants_option parent value
  | .echo values => by
      rw [addStatement, ofStatement]
      exact plants_exprs parent values

theorem plants_statements (parent : Nat) : ∀ statements : List Statement,
    Plants parent (source.addStatements parent statements) (source.ofStatements statements)
  | [] => by
      rw [addStatements, ofStatements]
      exact plants_nil
  | statement :: statements => by
      rw [addStatements, ofStatements]
      exact (plants_statement parent statement).append (plants_statements parent statements)

theorem plants_bodies (parent : Nat) : ∀ clauses : List Clause,
    Plants parent (source.addBodies parent clauses) (source.ofBodies clauses)
  | [] => by
      rw [addBodies, ofBodies]
      exact plants_nil
  | .clause _ body :: clauses => by
      rw [addBodies, ofBodies]
      exact (plants_statements parent body).append (plants_bodies parent clauses)

theorem plants_cases (parent : Nat) : ∀ clauses : List Clause,
    Plants parent (source.addCases parent clauses) (source.ofCases clauses)
  | [] => by
      rw [addCases, ofCases]
      exact plants_nil
  | .clause test body :: clauses => by
      rw [addCases, ofCases]
      exact (plants_option parent test).append
        ((plants_statements parent body).append (plants_cases parent clauses))

theorem plants_members (parent : Nat) : ∀ members : List Member,
    Plants parent (source.addMembers parent members) (source.ofMembers members)
  | [] => by
      rw [addMembers, ofMembers]
      exact plants_nil
  | .other :: members => by
      rw [addMembers, ofMembers]
      exact plants_members parent members
  | .method start isStatic name head body :: members => by
      -- the next method goes below the class again, not below this one
      have own : ∀ id, Plants id (do source.addHead id head; source.addStatements id body)
          (head.words.map source.reference ++ source.ofStatements body) :=
        fun id => (source.plants_head id head).append (plants_statements id body)
      rw [addMembers, ofMembers]
      exact (plants_branch own).cons (plants_members parent members)

end

/-- The outline that grows along the statements is the one that numbers their trees. -/
theorem outline_eq_ofForest (statements : List Statement) :
    source.outline statements = ofForest (source.ofStatements statements) := by
  rw [ofForest_eq_plantAll]
  exact congrArg Prod.snd (source.plants_statements 0 statements .empty)

end SourceText

end DocSig.Php
