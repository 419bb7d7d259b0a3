import DocSig.Files.Path

/-!
Why a file gives no signatures, or a run no reports.
-/

set_option autoImplicit false

namespace DocSig

inductive Fault where
  /-- A source is no program; the message is that of its parser. -/
  | noProgram (message : Text)
  /-- A path cannot be read, for a reason in the words of the system. -/
  | unreadable (path : Path) (reason : Text)
  /-- Settings cannot be used. -/
  | settings (message : Text)
deriving Repr, BEq, DecidableEq

def Fault.message : Fault → Text
  | .noProgram message => "syntax error: ".toList ++ message
  | .unreadable path reason =>
    "failed to read ".toList ++ path.shown ++ ": ".toList ++ reason
  | .settings message => "configuration error: ".toList ++ message

end DocSig
