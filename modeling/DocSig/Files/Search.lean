import DocSig.Files.Ignore

/-!
Searching a folder for all that is in it.

The search goes through all folders below, hidden ones included, except what the rules in force
leave out, and comes upon each folder before what it holds.
-/

set_option autoImplicit false

namespace DocSig.Files

mutual

/-- The routes to what a tree holds, to which `route` has led, as far as no rule leaves it out;
a folder whose names cannot be read adds an error. -/
def visible (rules : RulesInForce) (route : Route) : FileTree → List (Except Text Route)
  | .file _ => [.ok route]
  | .folder entries => .ok route :: visibleIn (rules.enter (.folder entries)) route entries
  | .sealed reason => [.ok route, .error reason]

def visibleIn (rules : RulesInForce) (route : Route) :
    List (Bytes × FileTree) → List (Except Text Route)
  | [] => []
  | (name, tree) :: entries =>
    (if rules.leavesOut name tree.isFolder then []
      else visible (rules.down name) (route ++ [name]) tree) ++
    visibleIn rules route entries

end

def search (root : FileTree) (place : Route) (folder : FileTree) : List (Except Text Route) :=
  visible (RulesInForce.above [] place root) [] folder

end DocSig.Files
