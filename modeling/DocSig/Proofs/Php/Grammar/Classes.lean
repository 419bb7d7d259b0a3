import DocSig.Php.Grammar.Classes
import DocSig.Proofs.Php.Grammar.Functions

/-!
The readers for classes and their members keep names bare.
-/

set_option autoImplicit false
set_option mvcgen.warning false

open Std.Do

namespace DocSig.Php

@[grind ←] theorem bare_heritage {extended implemented : List Word} (parents : bare extended)
    (others : bare implemented) : bare (Heritage.mk extended implemented) :=
  List.forall_mem_map.mpr (bare_joined.mpr ⟨parents, others⟩)

namespace Readers

open Parse

variable {r : Readers}

@[spec] theorem keeps_classesBehind (keyword : String) : Php.Keeps (r.classesBehind keyword) := by
  mvcgen [classesBehind] with grind

@[spec] theorem keeps_heritage : Php.Keeps r.heritage := by
  mvcgen [heritage] with grind

@[spec] theorem keeps_heritageOf (kind : DeclarationKind) : Php.Keeps (r.heritageOf kind) := by
  cases kind <;> mvcgen [heritageOf] with grind

variable (k : r.Keeps)

include k

@[spec] theorem keeps_assigned (kind : TokenKind) : Php.Keeps (r.assigned kind) := by
  mvcgen [assigned] with grind

@[spec] theorem keeps_constants : Php.Keeps r.constants := by
  mvcgen [constants] with grind

@[spec] theorem keeps_properties : Php.Keeps r.properties := by
  mvcgen [properties] with grind

omit k in
@[spec] theorem keeps_adaptation : Php.Keeps r.adaptation := by
  mvcgen [adaptation] with grind

omit k in
@[spec] theorem keeps_traits : Php.Keeps r.traits := by
  mvcgen [traits] with grind

@[spec] theorem keeps_method (start : Nat) (isStatic : Bool) :
    Php.Keeps (r.method start isStatic) := by
  mvcgen [method] with grind

@[spec] theorem keeps_member : Php.Keeps r.member := by
  mvcgen [member] with grind

@[spec] theorem keeps_members : Php.Keeps r.members := by
  mvcgen [members] with grind

@[spec] theorem keeps_classLike (start : Nat) (kind : DeclarationKind) :
    Php.Keeps (r.classLike start kind) := by
  mvcgen [classLike] with grind

end Readers

end DocSig.Php
