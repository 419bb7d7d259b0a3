import DocSig.Proofs.Outline.Bare
import DocSig.Proofs.Php.Outline
import DocSig.Proofs.Php.WellFormed

/-!
The names in the syntax of a source.

`Statement.names` lists every name that is written in a statement. If no line end and no quote
stands in any of them, none stands in a name of the outline (`bare_outline`): the names there are
written in the statements, put together from such names, or the common name of the classes that
have none of their own.
-/

set_option autoImplicit false

namespace DocSig.Php

open Rose

def Head.names (head : Head) : List Text := head.words.map Word.text

def Heritage.names (heritage : Heritage) : List Text :=
  (heritage.extended ++ heritage.implemented).map Word.text

def UseItem.names (item : UseItem) : List Text := item.name :: item.short.toList

def UseItems.names : UseItems → List Text
  | .sequence items | .typedSequence _ items => items.flatMap UseItem.names
  | .typedGroup _ lead items => lead :: items.flatMap UseItem.names
  | .mixedGroup lead items => lead :: items.flatMap fun (_, item) => item.names

mutual

/-- All names in an expression. -/
def Expr.names : Expr → List Text
  | .atom => []
  | .parenthesized inner | .unary inner | .member inner | .callable inner => inner.names
  | .binary left right => left.names ++ right.names
  | .conditional condition positive negative =>
    condition.names ++ (optionNames positive ++ negative.names)
  | .call callee arguments | .create callee arguments => callee.names ++ exprNames arguments
  | .array items | .destructure items | .yields items | .construct items | .template items =>
    exprNames items
  | .index base key => base.names ++ optionNames key
  | .choice subject arms => subject.names ++ armNames arms
  | .closure _ head body => head.names ++ statementNames body
  | .arrow _ head body => head.names ++ body.names
  | .anonymousClass _ arguments heritage members =>
    exprNames arguments ++ (heritage.names ++ memberNames members)

def optionNames : Option Expr → List Text
  | none => []
  | some expr => expr.names

def exprNames : List Expr → List Text
  | [] => []
  | expr :: exprs => expr.names ++ exprNames exprs

def armNames : List Arm → List Text
  | [] => []
  | .arm conditions result :: arms => (exprNames conditions ++ result.names) ++ armNames arms

/-- All names in a statement. -/
def Statement.names : Statement → List Text
  | .inert => []
  | .space _ name body => name.toList ++ statementNames body
  | .uses _ items => items.names
  | .classLike _ _ name heritage members => name :: (heritage.names ++ memberNames members)
  | .function _ name head body => name :: (head.names ++ statementNames body)
  | .block _ body | .directive _ body => statementNames body
  | .branches _ condition body clauses =>
    condition.names ++ (statementNames body ++ clauseNames clauses)
  | .guarded _ body handlers => statementNames body ++ clauseNames handlers
  | .forEach _ subject body | .whileLoop _ subject body => subject.names ++ statementNames body
  | .doLoop _ body condition => statementNames body ++ condition.names
  | .forLoop _ header body => exprNames header ++ statementNames body
  | .switch _ subject cases => subject.names ++ clauseNames cases
  | .expression value => value.names
  | .returns value => optionNames value
  | .echo values => exprNames values

def statementNames : List Statement → List Text
  | [] => []
  | statement :: statements => statement.names ++ statementNames statements

def clauseNames : List Clause → List Text
  | [] => []
  | .clause test body :: clauses => (optionNames test ++ statementNames body) ++ clauseNames clauses

def memberNames : List Member → List Text
  | [] => []
  | .other :: members => memberNames members
  | .method _ _ name head body :: members =>
    (name :: (head.names ++ statementNames body)) ++ memberNames members

end

/-- No line end and no quote stands in any of some names. -/
def AllBare (names : List Text) : Prop := ∀ name ∈ names, Bare name

@[simp] theorem allBare_nil : AllBare [] := nofun

@[simp] theorem allBare_cons {name : Text} {names : List Text} :
    AllBare (name :: names) ↔ Bare name ∧ AllBare names :=
  List.forall_mem_cons

@[simp] theorem allBare_append {names others : List Text} :
    AllBare (names ++ others) ↔ AllBare names ∧ AllBare others :=
  List.forall_mem_append

/-- Trees whose nodes have bare names. -/
def BareTrees (trees : List (Rose Node)) : Prop := ∀ node ∈ labelsAll trees, node.kind.Bare

@[simp] theorem bareTrees_nil : BareTrees [] := nofun

@[simp] theorem bareTrees_append {trees others : List (Rose Node)} :
    BareTrees (trees ++ others) ↔ BareTrees trees ∧ BareTrees others := by
  rw [BareTrees, labelsAll_append]
  exact List.forall_mem_append

@[simp] theorem bareTrees_branch {node : Node} {children trees : List (Rose Node)} :
    BareTrees (.branch node children :: trees) ↔
      (node.kind.Bare ∧ BareTrees children) ∧ BareTrees trees := by
  simp only [BareTrees, labelsAll_cons, labels_branch, List.forall_mem_append,
    List.forall_mem_cons]

theorem bareTrees_references (source : SourceText) {words : List Word}
    (given : AllBare (words.map Word.text)) : BareTrees (words.map source.reference) := by
  induction words with
  | nil => exact bareTrees_nil
  | cons word words ih =>
      obtain ⟨first, others⟩ := allBare_cons.mp given
      exact bareTrees_branch.mpr ⟨⟨first, bareTrees_nil⟩, ih others⟩

section

variable {heritage : Heritage}

theorem bare_words (kind : ClassKind) (given : AllBare heritage.names) :
    AllBare ((heritage.words kind).map Word.text) := by
  rw [Heritage.names, List.map_append, allBare_append] at given
  cases kind with
  | plain | anonymous =>
      rw [Heritage.words, List.map_append]
      exact allBare_append.mpr given
  | interface => exact given.1
  | trait => exact allBare_nil
  | enum => exact given.2

theorem bare_parent (given : AllBare heritage.names) :
    ∀ extended ∈ heritage.parent?, Bare extended := by
  intro extended found
  obtain ⟨word, first, rfl⟩ := Option.map_eq_some_iff.mp found
  exact given word.text
    (List.mem_map_of_mem (List.mem_append_left _ (List.mem_of_mem_head? first)))

end

theorem bare_shortName {name : Text} (given : Bare name) : Bare (shortName name) :=
  Bare.sublist given (List.reverse_sublist.mp (by
    rw [shortName, List.reverse_reverse]
    exact List.takeWhile_sublist _))

theorem bare_withoutLead {name : Text} (given : Bare name) : Bare (withoutLead name) :=
  Bare.sublist given (List.dropWhile_sublist _)

/-- Whatever is put before the name, its short name is the one given to it or a part of the
whole. -/
theorem bare_toImport {lead : Option Text} {item : UseItem} (before : AllBare lead.toList)
    (given : AllBare item.names) :
    Bare (item.toImport lead).short ∧ Bare (item.toImport lead).target := by
  obtain ⟨name, short⟩ := item
  obtain ⟨named, renamed⟩ := allBare_cons.mp given
  have last : Bare (withoutLead name) := bare_withoutLead named
  have made {target : Text} (whole : Bare target) :
      Bare (short.getD (shortName target)) ∧ Bare target := by
    refine ⟨?_, whole⟩
    cases short with
    | none => exact bare_shortName whole
    | some short => exact renamed short List.mem_cons_self
  cases lead with
  | none => exact made last
  | some lead =>
      have first : Bare (withoutLead lead) := bare_withoutLead (before lead List.mem_cons_self)
      have backslash : isBare '\\' = true := by decide
      exact made (bare_append.mpr ⟨first, bare_cons.mpr ⟨backslash, last⟩⟩)

theorem bare_imports {items : UseItems} (given : AllBare items.names) :
    ∀ item ∈ items.imports, Bare item.short ∧ Bare item.target := by
  intro made found
  cases items with
  | sequence items =>
      obtain ⟨item, among, rfl⟩ := List.mem_map.mp found
      exact bare_toImport allBare_nil fun name here =>
        given name (List.mem_flatMap.mpr ⟨item, among, here⟩)
  | typedSequence kind items => cases found
  | typedGroup kind lead items => cases found
  | mixedGroup lead items =>
      obtain ⟨first, others⟩ := allBare_cons.mp given
      obtain ⟨⟨kind, item⟩, among, here⟩ := List.mem_filterMap.mp found
      have named : AllBare item.names := fun name inside =>
        others name (List.mem_flatMap.mpr ⟨(kind, item), among, inside⟩)
      dsimp only at here
      split at here
      · cases here
      · cases here
        exact bare_toImport (allBare_cons.mpr ⟨first, allBare_nil⟩) named

namespace SourceText

variable (source : SourceText)

theorem bareTrees_block {start : Nat} {trees : List (Rose Node)} (given : BareTrees trees) :
    BareTrees [.branch (source.node start .block) trees] :=
  bareTrees_branch.mpr ⟨⟨trivial, given⟩, bareTrees_nil⟩

theorem bareTrees_headed {head : Head} {trees : List (Rose Node)} (named : AllBare head.names)
    (given : BareTrees trees) : BareTrees (head.words.map source.reference ++ trees) :=
  bareTrees_append.mpr ⟨bareTrees_references source named, given⟩

mutual

theorem bareTrees_expr : ∀ expr : Expr, AllBare expr.names → BareTrees (source.ofExpr expr)
  | .atom, _ | .callable _, _ | .destructure _, _ | .index _ _, _ | .construct _, _
  | .template _, _ => by
      rw [ofExpr]
      exact bareTrees_nil
  | .parenthesized inner, given | .unary inner, given | .member inner, given => by
      rw [Expr.names] at given
      rw [ofExpr]
      exact bareTrees_expr inner given
  | .binary left right, given => by
      rw [Expr.names, allBare_append] at given
      rw [ofExpr, bareTrees_append]
      exact ⟨bareTrees_expr left given.1, bareTrees_expr right given.2⟩
  | .conditional condition positive negative, given => by
      rw [Expr.names, allBare_append, allBare_append] at given
      rw [ofExpr, bareTrees_append, bareTrees_append]
      exact ⟨bareTrees_expr condition given.1, bareTrees_option positive given.2.1,
        bareTrees_expr negative given.2.2⟩
  | .call callee arguments, given | .create callee arguments, given => by
      rw [Expr.names, allBare_append] at given
      rw [ofExpr, bareTrees_append]
      exact ⟨bareTrees_expr callee given.1, bareTrees_exprs arguments given.2⟩
  | .array elements, given | .yields elements, given => by
      rw [Expr.names] at given
      rw [ofExpr]
      exact bareTrees_exprs elements given
  | .choice subject arms, given => by
      rw [Expr.names, allBare_append] at given
      rw [ofExpr, bareTrees_append]
      exact ⟨bareTrees_expr subject given.1, bareTrees_arms arms given.2⟩
  | .closure start head body, given => by
      rw [Expr.names, allBare_append] at given
      rw [ofExpr]
      exact source.bareTrees_block
        (source.bareTrees_headed given.1 (bareTrees_statements body given.2))
  | .arrow start head body, given => by
      rw [Expr.names, allBare_append] at given
      rw [ofExpr]
      exact source.bareTrees_block (source.bareTrees_headed given.1 (bareTrees_expr body given.2))
  | .anonymousClass start arguments heritage members, given => by
      rw [Expr.names, allBare_append, allBare_append] at given
      obtain ⟨before, above, inside⟩ := given
      have own : Bare anonymousClassName := forall_of_all (by decide)
      rw [ofExpr, bareTrees_append, bareTrees_branch, bareTrees_append]
      exact ⟨bareTrees_exprs arguments before, ⟨⟨own, bare_parent above⟩,
        bareTrees_references source (bare_words _ above), bareTrees_members members inside⟩,
        bareTrees_nil⟩

theorem bareTrees_option : ∀ expr : Option Expr, AllBare (optionNames expr) →
    BareTrees (source.ofOption expr)
  | none, _ => by
      rw [ofOption]
      exact bareTrees_nil
  | some expr, given => by
      rw [optionNames] at given
      rw [ofOption]
      exact bareTrees_expr expr given

theorem bareTrees_exprs : ∀ exprs : List Expr, AllBare (exprNames exprs) →
    BareTrees (source.ofExprs exprs)
  | [], _ => by
      rw [ofExprs]
      exact bareTrees_nil
  | expr :: exprs, given => by
      rw [exprNames, allBare_append] at given
      rw [ofExprs, bareTrees_append]
      exact ⟨bareTrees_expr expr given.1, bareTrees_exprs exprs given.2⟩

theorem bareTrees_arms : ∀ arms : List Arm, AllBare (armNames arms) →
    BareTrees (source.ofArms arms)
  | [], _ => by
      rw [ofArms]
      exact bareTrees_nil
  | .arm _ result :: arms, given => by
      rw [armNames, allBare_append, allBare_append] at given
      rw [ofArms, bareTrees_append]
      exact ⟨bareTrees_expr result given.1.2, bareTrees_arms arms given.2⟩

theorem bareTrees_statement : ∀ statement : Statement, AllBare statement.names →
    BareTrees (source.ofStatement statement)
  | .inert, _ => by
      rw [ofStatement]
      exact bareTrees_nil
  | .space start name body, given => by
      rw [Statement.names, allBare_append] at given
      obtain ⟨own, inside⟩ := given
      have shown : ∀ space ∈ name.filter (!·.isEmpty), Bare space := fun space found =>
        own space (Option.mem_toList.mpr (Option.filter_eq_some_iff.mp found).1)
      rw [ofStatement, bareTrees_branch]
      exact ⟨⟨shown, bareTrees_statements body inside⟩, bareTrees_nil⟩
  | .uses start items, given => by
      rw [Statement.names] at given
      rw [ofStatement]
      split
      · exact bareTrees_nil
      · exact bareTrees_branch.mpr ⟨⟨bare_imports given, bareTrees_nil⟩, bareTrees_nil⟩
  | .classLike start kind name heritage members, given => by
      rw [Statement.names, allBare_cons, allBare_append] at given
      obtain ⟨own, above, inside⟩ := given
      have extended : ∀ parent ∈ if kind = .class_ then heritage.parent? else none,
          Bare parent := by
        split
        · exact bare_parent above
        · exact nofun
      rw [ofStatement, bareTrees_branch, bareTrees_append]
      exact ⟨⟨⟨own, extended⟩, bareTrees_references source (bare_words _ above),
        bareTrees_members members inside⟩, bareTrees_nil⟩
  | .function start name head body, given => by
      rw [Statement.names, allBare_cons, allBare_append] at given
      obtain ⟨own, types, inside⟩ := given
      rw [ofStatement, bareTrees_branch]
      exact ⟨⟨own, source.bareTrees_headed types (bareTrees_statements body inside)⟩,
        bareTrees_nil⟩
  | .block start body, given | .directive start body, given => by
      rw [Statement.names] at given
      rw [ofStatement]
      exact source.bareTrees_block (bareTrees_statements body given)
  | .branches start condition body clauses, given => by
      rw [Statement.names, allBare_append, allBare_append] at given
      rw [ofStatement]
      refine source.bareTrees_block ?_
      rw [bareTrees_append, bareTrees_append]
      exact ⟨bareTrees_expr condition given.1, bareTrees_statements body given.2.1,
        (bareTrees_clauses clauses given.2.2).1⟩
  | .guarded start body handlers, given => by
      rw [Statement.names, allBare_append] at given
      rw [ofStatement]
      refine source.bareTrees_block (bareTrees_append.mpr ?_)
      exact ⟨bareTrees_statements body given.1, (bareTrees_clauses handlers given.2).1⟩
  | .forEach start subject body, given | .whileLoop start subject body, given => by
      rw [Statement.names, allBare_append] at given
      rw [ofStatement]
      refine source.bareTrees_block (bareTrees_append.mpr ?_)
      exact ⟨bareTrees_expr subject given.1, bareTrees_statements body given.2⟩
  | .doLoop start body condition, given => by
      rw [Statement.names, allBare_append] at given
      rw [ofStatement]
      refine source.bareTrees_block (bareTrees_append.mpr ?_)
      exact ⟨bareTrees_statements body given.1, bareTrees_expr condition given.2⟩
  | .forLoop start header body, given => by
      rw [Statement.names, allBare_append] at given
      rw [ofStatement]
      refine source.bareTrees_block (bareTrees_append.mpr ?_)
      exact ⟨bareTrees_exprs header given.1, bareTrees_statements body given.2⟩
  | .switch start subject cases, given => by
      rw [Statement.names, allBare_append] at given
      rw [ofStatement]
      refine source.bareTrees_block (bareTrees_append.mpr ?_)
      exact ⟨bareTrees_expr subject given.1, (bareTrees_clauses cases given.2).2⟩
  | .expression value, given => by
      rw [Statement.names] at given
      rw [ofStatement]
      exact bareTrees_expr value given
  | .returns value, given => by
      rw [Statement.names] at given
      rw [ofStatement]
      exact bareTrees_option value given
  | .echo values, given => by
      rw [Statement.names] at given
      rw [ofStatement]
      exact bareTrees_exprs values given

theorem bareTrees_statements : ∀ statements : List Statement, AllBare (statementNames statements) →
    BareTrees (source.ofStatements statements)
  | [], _ => by
      rw [ofStatements]
      exact bareTrees_nil
  | statement :: statements, given => by
      rw [statementNames, allBare_append] at given
      rw [ofStatements, bareTrees_append]
      exact ⟨bareTrees_statement statement given.1, bareTrees_statements statements given.2⟩

/-- A clause is a branch or a case; the nodes of its test count only in a case. -/
theorem bareTrees_clauses : ∀ clauses : List Clause, AllBare (clauseNames clauses) →
    BareTrees (source.ofBodies clauses) ∧ BareTrees (source.ofCases clauses)
  | [], _ => by
      rw [ofBodies, ofCases]
      exact ⟨bareTrees_nil, bareTrees_nil⟩
  | .clause test body :: clauses, given => by
      rw [clauseNames, allBare_append, allBare_append] at given
      obtain ⟨⟨tested, inside⟩, others⟩ := given
      have own := bareTrees_statements body inside
      have later := bareTrees_clauses clauses others
      rw [ofBodies, ofCases, bareTrees_append, bareTrees_append, bareTrees_append]
      exact ⟨⟨own, later.1⟩, bareTrees_option test tested, own, later.2⟩

theorem bareTrees_members : ∀ members : List Member, AllBare (memberNames members) →
    BareTrees (source.ofMembers members)
  | [], _ => by
      rw [ofMembers]
      exact bareTrees_nil
  | .other :: members, given => by
      rw [memberNames] at given
      rw [ofMembers]
      exact bareTrees_members members given
  | .method start isStatic name head body :: members, given => by
      rw [memberNames, allBare_append, allBare_cons, allBare_append] at given
      obtain ⟨⟨own, types, inside⟩, others⟩ := given
      rw [ofMembers, bareTrees_branch]
      exact ⟨⟨own, source.bareTrees_headed types (bareTrees_statements body inside)⟩,
        bareTrees_members members others⟩

end

end SourceText

/-- The names of a program are bare. -/
def Program.Bare (program : Program) : Prop := AllBare (statementNames program.statements)

/-- The outline of a program with bare names has bare names. -/
theorem bare_outline {parser : Parser} {source : Text} {outline : Outline}
    (named : ∀ program, parser source = some program → program.errors = [] → program.Bare)
    (read : outlineOf parser source = .ok outline) :
    ∀ entry ∈ outline.root.labels, entry.kind.Bare := by
  obtain ⟨program, given, sound, rfl⟩ := outlineOf_eq_ok read
  intro entry found
  rw [SourceText.outline_eq_ofForest] at found
  rcases Outline.mem_labels_ofForest found with rfl | ⟨inside, -⟩
  · exact trivial
  · exact SourceText.bareTrees_statements _ _ (named program given sound) entry.toNode inside

end DocSig.Php
