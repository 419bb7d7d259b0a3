import DocSig.Docblock.Basic
import DocSig.TypeSet

/-!
Signatures: the qualified name of a documented function or method with the sets of types
that its comment declares, and the line that a signature is written as.
-/

set_option autoImplicit false

namespace DocSig

def Alternatives.toSet (type : Alternatives) : TypeSet := TypeSet.ofList type.texts

/-- The declared types of one function or method; `results` is empty if none is declared. -/
structure Signature where
  name : Text
  parameters : List TypeSet
  results : TypeSet
deriving DecidableEq

namespace Signature

/-- The signature that a comment declares for the function `name`. -/
def ofDocblock (name : Text) (doc : Docblock) : Except DocFault Signature :=
  let parameters := doc.parameters.map fun parameter => parameter.type.toSet
  match doc.results with
  | [] => .ok ⟨name, parameters, TypeSet.empty⟩
  | [result] => .ok ⟨name, parameters, result.toSet⟩
  | results => .error (.multipleResults results.length)

/-- Every type name replaced by its image; names with one image become one member. -/
def mapTypes (f : Text → Text) (signature : Signature) : Signature :=
  ⟨signature.name, signature.parameters.map (TypeSet.map f), signature.results.map f⟩

def setText (set : TypeSet) : Text := Text.join [','] set.texts

/-- The line of a signature: its name, its result and then each parameter, all closed by `; `. -/
def line (signature : Signature) : Text :=
  let fields := signature.name :: setText signature.results :: signature.parameters.map setText
  fields.flatMap fun field => field ++ [';', ' ']

end Signature

end DocSig
