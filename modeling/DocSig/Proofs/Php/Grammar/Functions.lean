import DocSig.Php.Grammar.Functions
import DocSig.Proofs.Php.Grammar.Basic

/-!
The readers for what belongs to functions keep names bare, given that those for expressions and
statements do (`Readers.Keeps`).
-/

set_option autoImplicit false
set_option mvcgen.warning false

open Std.Do

namespace DocSig.Php

@[grind ←] theorem bare_head {parameters : List (Option Hint)} {result : Option Hint}
    (first : bare parameters) (last : bare result) : bare (Head.mk parameters result) := by
  refine List.forall_mem_map.mpr fun word found => ?_
  obtain ⟨hint, among, inside⟩ := List.mem_flatMap.mp found
  cases hint with
  | none => cases inside
  | some hint =>
      have each : bare (parameters ++ [result]) :=
        bare_joined.mpr ⟨first, bare_more.mpr ⟨last, bare_empty⟩⟩
      exact each _ among hint rfl word inside

namespace Readers

open Parse

/-- The readers of expressions and statements keep names bare. -/
structure Keeps (r : Readers) : Prop where
  expr (least : Nat) : Php.Keeps (r.expr least)
  statement : Php.Keeps r.statement

variable {r : Readers} (k : r.Keeps)

include k

@[spec] theorem keeps_expr (least : Nat) : Php.Keeps (r.expr least) := k.expr least

@[spec] theorem keeps_statement : Php.Keeps r.statement := k.statement

@[spec] theorem keeps_value : Php.Keeps r.value := k.expr 0

@[spec] theorem keeps_statements : Php.Keeps r.statements :=
  keeps_manyUntil "\x7d" k.statement r.limit

@[spec] theorem keeps_body : Php.Keeps r.body := by
  mvcgen [body] with grind

@[spec] theorem keeps_argument : Php.Keeps r.argument := by
  mvcgen [argument] with grind

@[spec] theorem keeps_arguments : Php.Keeps r.arguments := by
  mvcgen [arguments] with grind

@[spec] theorem keeps_attribute_ : Php.Keeps r.attribute_ := by
  mvcgen [attribute_] with grind

@[spec] theorem keeps_attributes : Php.Keeps r.attributes := by
  mvcgen [attributes] with grind

omit k in
@[spec] theorem keeps_modifier : Php.Keeps modifier := by
  mvcgen [modifier] with grind

omit k in
@[spec] theorem keeps_modifiers : Php.Keeps r.modifiers := by
  mvcgen [modifiers]

omit k in
@[spec] theorem keeps_hint : Php.Keeps r.hint := keeps_readHint r.limit

@[spec] theorem keeps_default : Php.Keeps r.default_ := by
  mvcgen [default_] with grind

omit k in
@[spec] theorem keeps_hintBeforeName : Php.Keeps r.hintBeforeName := by
  mvcgen [hintBeforeName] with grind

@[spec] theorem keeps_parameterWith {hooks : Parse Unit} (keeps : Php.Keeps hooks) :
    Php.Keeps (r.parameterWith hooks) := by
  mvcgen [parameterWith, keeps] with grind

@[spec] theorem keeps_hook : Php.Keeps r.hook := by
  mvcgen [hook] with grind

@[spec] theorem keeps_hooks : Php.Keeps r.hooks := by
  mvcgen [hooks] with grind

@[spec] theorem keeps_parameter : Php.Keeps r.parameter := by
  mvcgen [parameter] with grind

@[spec] theorem keeps_parameters : Php.Keeps r.parameters := by
  mvcgen [parameters] with grind

omit k in
@[spec] theorem keeps_result : Php.Keeps r.result := by
  mvcgen [result]

@[spec] theorem keeps_head : Php.Keeps r.head := by
  mvcgen [head] with grind

end Readers

end DocSig.Php
