import DocSig.Proofs.Php.Lexer
import DocSig.Proofs.Php.Names

/-!
Names in what the readers of a source give.

`bare` says of a token, a word, an expression and so on that no line end and no quote stands in a
name that it holds. A construct is bare if its parts are.
-/

set_option autoImplicit false

namespace DocSig

namespace Php

/-- What readers give, with what is asked of the names in it. -/
class HasNames (α : Type) where
  /-- No line end and no quote stands in a name. -/
  bare : α → Prop

export HasNames (bare)

instance : HasNames Unit := ⟨fun _ => True⟩

instance : HasNames Bool := ⟨fun _ => True⟩

instance : HasNames Nat := ⟨fun _ => True⟩

instance : HasNames Char := ⟨fun c => isBare c = true⟩

instance : HasNames Token := ⟨Token.Bare⟩

instance : HasNames Word := ⟨fun word => Bare word.text⟩

section

variable {α β : Type} [HasNames α] [HasNames β]

instance : HasNames (Option α) := ⟨fun given => ∀ x ∈ given, bare x⟩

instance : HasNames (List α) := ⟨fun items => ∀ x ∈ items, bare x⟩

instance : HasNames (α × β) := ⟨fun pair => bare pair.1 ∧ bare pair.2⟩

@[simp, grind .] theorem bare_unit (x : Unit) : bare x := trivial

@[simp, grind .] theorem bare_bool (x : Bool) : bare x := trivial

@[simp, grind .] theorem bare_nat (x : Nat) : bare x := trivial

@[simp, grind .] theorem bare_none : bare (none : Option α) := nofun

@[simp, grind =] theorem bare_some {x : α} : bare (some x) ↔ bare x := by simp [bare]

@[simp, grind .] theorem bare_empty : bare ([] : List α) := nofun

@[grind ←] theorem bare_getD {given : Option (List α)} (inside : bare given) :
    bare (given.getD []) := by
  cases given with
  | none => exact bare_empty
  | some items => exact inside items rfl

@[simp, grind =] theorem bare_more {x : α} {xs : List α} : bare (x :: xs) ↔ bare x ∧ bare xs :=
  List.forall_mem_cons

@[simp, grind =] theorem bare_joined {xs ys : List α} : bare (xs ++ ys) ↔ bare xs ∧ bare ys :=
  List.forall_mem_append

@[simp, grind =] theorem bare_pair {x : α} {y : β} : bare (x, y) ↔ bare x ∧ bare y := Iff.rfl

end

instance : HasNames Hint := ⟨fun hint => bare hint.words⟩

instance : HasNames Head := ⟨fun head => AllBare head.names⟩

instance : HasNames Heritage := ⟨fun heritage => AllBare heritage.names⟩

instance : HasNames UseKind := ⟨fun _ => True⟩

instance : HasNames UseItem := ⟨fun item => AllBare item.names⟩

instance : HasNames UseItems := ⟨fun items => AllBare items.names⟩

instance : HasNames Expr := ⟨fun expr => AllBare expr.names⟩

instance : HasNames Arm := ⟨fun arm => AllBare (armNames [arm])⟩

instance : HasNames Statement := ⟨fun statement => AllBare statement.names⟩

instance : HasNames Clause := ⟨fun clause => AllBare (clauseNames [clause])⟩

instance : HasNames Member := ⟨fun member => AllBare (memberNames [member])⟩

theorem bare_optionNames {expr : Option Expr} : bare expr ↔ AllBare (optionNames expr) := by
  cases expr with
  | none => simp [optionNames]
  | some expr =>
      rw [bare_some, optionNames]
      exact Iff.rfl

theorem bare_exprNames {exprs : List Expr} : bare exprs ↔ AllBare (exprNames exprs) := by
  induction exprs with
  | nil => simp [exprNames]
  | cons expr exprs ih =>
      rw [bare_more, exprNames, allBare_append, ih]
      exact Iff.rfl

theorem bare_armNames {arms : List Arm} : bare arms ↔ AllBare (armNames arms) := by
  induction arms with
  | nil => simp [armNames]
  | cons arm arms ih =>
      cases arm with
      | arm conditions result =>
          rw [bare_more, armNames, allBare_append, ih]
          simp [bare, armNames]

theorem bare_statementNames {statements : List Statement} :
    bare statements ↔ AllBare (statementNames statements) := by
  induction statements with
  | nil => simp [statementNames]
  | cons statement statements ih =>
      rw [bare_more, statementNames, allBare_append, ih]
      exact Iff.rfl

theorem bare_clauseNames {clauses : List Clause} :
    bare clauses ↔ AllBare (clauseNames clauses) := by
  induction clauses with
  | nil => simp [clauseNames]
  | cons clause clauses ih =>
      cases clause with
      | clause test body =>
          rw [bare_more, clauseNames, allBare_append, ih]
          simp [bare, clauseNames]

theorem bare_memberNames {members : List Member} :
    bare members ↔ AllBare (memberNames members) := by
  induction members with
  | nil => simp [memberNames]
  | cons member members ih =>
      cases member with
      | other =>
          rw [bare_more, memberNames, ih]
          simp [bare, memberNames]
      | method start isStatic name head body =>
          rw [bare_more, memberNames, allBare_append, ih]
          simp [bare, memberNames]

section

variable {expr other : Expr} {given : Option Expr} {exprs : List Expr} {arms : List Arm}
  {statements : List Statement} {clauses : List Clause} {members : List Member} {head : Head}
  {heritage : Heritage} {name lead : Text} {short : Option Text} {item : UseItem}
  {items : List UseItem} {mixed : List (Option UseKind × UseItem)}

@[simp, grind .] theorem bare_useKind (kind : UseKind) : bare kind := trivial

@[grind ←] theorem bare_useItem (named : bare name) (renamed : bare short) :
    bare (UseItem.mk name short) :=
  allBare_cons.mpr ⟨named, fun _ found => renamed _ (Option.mem_toList.mp found)⟩

@[grind →] theorem bare_useItem_name (named : bare item) : bare item.name :=
  (allBare_cons.mp named).1

theorem bare_itemNames (each : bare items) : AllBare (items.flatMap UseItem.names) := by
  intro name found
  obtain ⟨item, among, here⟩ := List.mem_flatMap.mp found
  exact each item among name here

@[grind ←] theorem bare_sequence (each : bare items) : bare (UseItems.sequence items) :=
  bare_itemNames each

@[grind ←] theorem bare_typedSequence (kind : UseKind) (each : bare items) :
    bare (UseItems.typedSequence kind items) :=
  bare_itemNames each

@[grind ←] theorem bare_typedGroup (kind : UseKind) (before : bare lead) (each : bare items) :
    bare (UseItems.typedGroup kind lead items) :=
  allBare_cons.mpr ⟨before, bare_itemNames each⟩

@[grind ←] theorem bare_mixedGroup (before : bare lead) (each : bare mixed) :
    bare (UseItems.mixedGroup lead mixed) := by
  refine allBare_cons.mpr ⟨before, fun name found => ?_⟩
  obtain ⟨⟨kind, item⟩, among, here⟩ := List.mem_flatMap.mp found
  exact (each _ among).2 name here

@[grind .] theorem bare_atom : bare Expr.atom := allBare_nil

@[grind ←] theorem bare_callable (callee : bare expr) : bare (Expr.callable expr) := callee

@[grind ←] theorem bare_destructure (elements : bare exprs) : bare (Expr.destructure exprs) :=
  bare_exprNames.mp elements

@[grind ←] theorem bare_index (base : bare expr) (key : bare given) :
    bare (Expr.index expr given) :=
  allBare_append.mpr ⟨base, bare_optionNames.mp key⟩

@[grind ←] theorem bare_construct (operands : bare exprs) : bare (Expr.construct exprs) :=
  bare_exprNames.mp operands

@[grind ←] theorem bare_template (values : bare exprs) : bare (Expr.template exprs) :=
  bare_exprNames.mp values

@[grind ←] theorem bare_parenthesized (inner : bare expr) : bare (Expr.parenthesized expr) := inner

@[grind ←] theorem bare_unary (operand : bare expr) : bare (Expr.unary expr) := operand

@[grind ←] theorem bare_memberOf (object : bare expr) : bare (Expr.member expr) := object

@[grind ←] theorem bare_binary (left : bare expr) (right : bare other) :
    bare (Expr.binary expr other) :=
  allBare_append.mpr ⟨left, right⟩

@[grind ←] theorem bare_conditional {condition : Expr} (tested : bare condition)
    (positive : bare given) (negative : bare other) :
    bare (Expr.conditional condition given other) :=
  allBare_append.mpr ⟨tested, allBare_append.mpr ⟨bare_optionNames.mp positive, negative⟩⟩

@[grind ←] theorem bare_call (callee : bare expr) (arguments : bare exprs) :
    bare (Expr.call expr exprs) :=
  allBare_append.mpr ⟨callee, bare_exprNames.mp arguments⟩

@[grind ←] theorem bare_create (class_ : bare expr) (arguments : bare exprs) :
    bare (Expr.create expr exprs) :=
  allBare_append.mpr ⟨class_, bare_exprNames.mp arguments⟩

@[grind ←] theorem bare_array (elements : bare exprs) : bare (Expr.array exprs) :=
  bare_exprNames.mp elements

@[grind ←] theorem bare_yields (operands : bare exprs) : bare (Expr.yields exprs) :=
  bare_exprNames.mp operands

@[grind ←] theorem bare_choice (subject : bare expr) (results : bare arms) :
    bare (Expr.choice expr arms) :=
  allBare_append.mpr ⟨subject, bare_armNames.mp results⟩

@[grind ←] theorem bare_closure (start : Nat) (types : bare head) (body : bare statements) :
    bare (Expr.closure start head statements) :=
  allBare_append.mpr ⟨types, bare_statementNames.mp body⟩

@[grind ←] theorem bare_arrow (start : Nat) (types : bare head) (body : bare expr) :
    bare (Expr.arrow start head expr) :=
  allBare_append.mpr ⟨types, body⟩

@[grind ←] theorem bare_anonymousClass (start : Nat) (arguments : bare exprs)
    (parents : bare heritage) (inside : bare members) :
    bare (Expr.anonymousClass start exprs heritage members) :=
  allBare_append.mpr ⟨bare_exprNames.mp arguments,
    allBare_append.mpr ⟨parents, bare_memberNames.mp inside⟩⟩

@[grind ←] theorem bare_arm (conditions : bare exprs) (result : bare expr) :
    bare (Arm.arm exprs expr) :=
  allBare_append.mpr ⟨allBare_append.mpr ⟨bare_exprNames.mp conditions, result⟩, allBare_nil⟩

@[grind .] theorem bare_inert : bare Statement.inert := allBare_nil

@[grind ←] theorem bare_uses {items : UseItems} (start : Nat) (named : bare items) :
    bare (Statement.uses start items) := named

@[grind ←] theorem bare_expression (value : bare expr) : bare (Statement.expression expr) := value

@[grind ←] theorem bare_returns (value : bare given) : bare (Statement.returns given) :=
  bare_optionNames.mp value

@[grind ←] theorem bare_echo (values : bare exprs) : bare (Statement.echo exprs) :=
  bare_exprNames.mp values

@[grind ←] theorem bare_space {name : Option Text} (start : Nat) (named : bare name)
    (body : bare statements) : bare (Statement.space start name statements) :=
  allBare_append.mpr ⟨fun _ found => named _ (Option.mem_toList.mp found),
    bare_statementNames.mp body⟩

@[grind ←] theorem bare_block (start : Nat) (body : bare statements) :
    bare (Statement.block start statements) :=
  bare_statementNames.mp body

@[grind ←] theorem bare_directive (start : Nat) (body : bare statements) :
    bare (Statement.directive start statements) :=
  bare_statementNames.mp body

@[grind ←] theorem bare_function (start : Nat) (named : bare name) (types : bare head)
    (body : bare statements) : bare (Statement.function start name head statements) :=
  allBare_cons.mpr ⟨named, allBare_append.mpr ⟨types, bare_statementNames.mp body⟩⟩

@[grind ←] theorem bare_classLike (start : Nat) (kind : DeclarationKind) (named : bare name)
    (parents : bare heritage) (inside : bare members) :
    bare (Statement.classLike start kind name heritage members) :=
  allBare_cons.mpr ⟨named, allBare_append.mpr ⟨parents, bare_memberNames.mp inside⟩⟩

@[grind ←] theorem bare_forEach (start : Nat) (subject : bare expr) (body : bare statements) :
    bare (Statement.forEach start expr statements) :=
  allBare_append.mpr ⟨subject, bare_statementNames.mp body⟩

@[grind ←] theorem bare_whileLoop (start : Nat) (condition : bare expr) (body : bare statements) :
    bare (Statement.whileLoop start expr statements) :=
  allBare_append.mpr ⟨condition, bare_statementNames.mp body⟩

@[grind ←] theorem bare_doLoop (start : Nat) (body : bare statements) (condition : bare expr) :
    bare (Statement.doLoop start statements expr) :=
  allBare_append.mpr ⟨bare_statementNames.mp body, condition⟩

@[grind ←] theorem bare_forLoop (start : Nat) (header : bare exprs) (body : bare statements) :
    bare (Statement.forLoop start exprs statements) :=
  allBare_append.mpr ⟨bare_exprNames.mp header, bare_statementNames.mp body⟩

@[grind ←] theorem bare_branches (start : Nat) (condition : bare expr) (body : bare statements)
    (others : bare clauses) : bare (Statement.branches start expr statements clauses) :=
  allBare_append.mpr ⟨condition,
    allBare_append.mpr ⟨bare_statementNames.mp body, bare_clauseNames.mp others⟩⟩

@[grind ←] theorem bare_guarded (start : Nat) (body : bare statements) (handlers : bare clauses) :
    bare (Statement.guarded start statements clauses) :=
  allBare_append.mpr ⟨bare_statementNames.mp body, bare_clauseNames.mp handlers⟩

@[grind ←] theorem bare_switch (start : Nat) (subject : bare expr) (cases : bare clauses) :
    bare (Statement.switch start expr clauses) :=
  allBare_append.mpr ⟨subject, bare_clauseNames.mp cases⟩

@[grind ←] theorem bare_clause (test : bare given) (body : bare statements) :
    bare (Clause.clause given statements) :=
  allBare_append.mpr ⟨allBare_append.mpr ⟨bare_optionNames.mp test, bare_statementNames.mp body⟩,
    allBare_nil⟩

@[grind .] theorem bare_other : bare Member.other := allBare_nil

@[grind ←] theorem bare_method (start : Nat) (isStatic : Bool) (named : bare name)
    (types : bare head) (body : bare statements) :
    bare (Member.method start isStatic name head statements) :=
  allBare_append.mpr ⟨allBare_cons.mpr ⟨named,
    allBare_append.mpr ⟨types, bare_statementNames.mp body⟩⟩, allBare_nil⟩

end

end Php

end DocSig
