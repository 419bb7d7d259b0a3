import DocSig.Php.Grammar.Expressions
import DocSig.Proofs.Php.Grammar.Classes

/-!
The readers for expressions keep names bare.
-/

set_option autoImplicit false
set_option mvcgen.warning false

open Std.Do

namespace DocSig.Php.Readers

open Parse

@[spec] theorem keeps_tryAccess : Php.Keeps tryAccess := by
  mvcgen [tryAccess] with grind

@[spec] theorem keeps_atEnd : Php.Keeps atEnd := by
  mvcgen [atEnd] with grind

@[spec] theorem keeps_atClosure : Php.Keeps atClosure := by
  mvcgen [atClosure] with grind

variable {r : Readers} (k : r.Keeps)

include k

@[spec] theorem keeps_bracedValue : Php.Keeps r.bracedValue := by
  mvcgen [bracedValue] with grind

@[spec] theorem keeps_dynamicVariable : Php.Keeps r.dynamicVariable := by
  mvcgen [dynamicVariable] with grind

@[spec] theorem keeps_memberName : Php.Keeps r.memberName := by
  mvcgen [memberName] with grind

@[spec] theorem keeps_key : Php.Keeps r.key := by
  mvcgen [key] with grind

@[spec] theorem keeps_plainAccesses (limit : Nat) {base : Expr} (given : bare base) :
    Php.Keeps (r.plainAccesses limit base) := by
  induction limit generalizing base with
  | zero => exact keeps_failure
  | succ limit ih => mvcgen [plainAccesses, ih] with grind

@[spec] theorem keeps_accesses (limit : Nat) {base : Expr} (given : bare base) :
    Php.Keeps (r.accesses limit base) := by
  induction limit generalizing base with
  | zero => exact keeps_failure
  | succ limit ih => mvcgen [accesses, ih] with grind

omit k in
@[spec] theorem keeps_captured : Php.Keeps r.captured := by
  mvcgen [captured] with grind

@[spec] theorem keeps_closure (start : Nat) : Php.Keeps (r.closure start) := by
  mvcgen [closure] with grind

@[spec] theorem keeps_anonymousClass (start : Nat) : Php.Keeps (r.anonymousClass start) := by
  mvcgen [anonymousClass] with grind

@[spec] theorem keeps_createdClass : Php.Keeps r.createdClass := by
  mvcgen [createdClass] with grind

@[spec] theorem keeps_created (start : Nat) : Php.Keeps (r.created start) := by
  mvcgen [created] with grind

@[spec] theorem keeps_element : Php.Keeps r.element := by
  mvcgen [element] with grind

@[spec] theorem keeps_elements (close : String) (limit : Nat) :
    Php.Keeps (r.elements close limit) := by
  induction limit with
  | zero => exact keeps_failure
  | succ limit ih => mvcgen [elements, ih] with grind

@[spec] theorem keeps_arm : Php.Keeps r.arm := by
  mvcgen [arm] with grind

@[spec] theorem keeps_choice : Php.Keeps r.choice := by
  mvcgen [choice] with grind

@[spec] theorem keeps_yielded : Php.Keeps r.yielded := by
  mvcgen [yielded] with grind

@[spec] theorem keeps_templateValues (limit : Nat) : Php.Keeps (r.templateValues limit) := by
  induction limit with
  | zero => exact keeps_failure
  | succ limit ih => mvcgen [templateValues, ih] with grind

@[spec] theorem keeps_constructed : Php.Keeps r.constructed := by
  mvcgen [constructed] with grind

@[spec] theorem keeps_wordOperand (token : Token) : Php.Keeps (r.wordOperand token) := by
  unfold wordOperand
  -- one goal for each group of words, so that no branch carries the conditions of the others
  repeat' with_reducible apply keeps_ite
  all_goals mvcgen with grind

@[spec] theorem keeps_operand : Php.Keeps r.operand := by
  mvcgen [operand] with grind

@[spec] theorem keeps_operators (least limit : Nat) {left : Expr} (given : bare left) :
    Php.Keeps (r.operators least limit left) := by
  induction limit generalizing left with
  | zero => exact keeps_failure
  | succ limit ih => mvcgen [operators, ih] with grind

@[spec] theorem keeps_expression (least : Nat) : Php.Keeps (r.expression least) := by
  mvcgen [expression] with grind

end DocSig.Php.Readers
