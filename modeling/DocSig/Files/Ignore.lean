import DocSig.Files.Pattern
import DocSig.Files.Tree

/-!
Rules that leave files and folders out of a search.

A folder may hold files of rules. The last rule of a file that fits decides, and a rule after `!`
decides against leaving out. Of several files that decide, one of an earlier name in `ruleFiles`
wins, and among files of one name the one in the nearest folder.
-/

set_option autoImplicit false

namespace DocSig.Files

/-- What a rule decides of a file or folder. -/
inductive Verdict where
  | leftOut
  | kept
deriving Repr, BEq, DecidableEq

/-- A line of a file of rules. -/
structure Rule where
  pattern : List Token
  verdict : Verdict
  onlyFolders : Bool

namespace Rule

/-- The text of a line without white space at its end, unless its last character is a blank behind
a backslash. -/
def trimLine (line : Text) : Text :=
  if (Text.before? ['\\', ' '] line).isSome then line else Text.trimEnd line

/-- The whole pattern of a rule: one without a slash fits in any folder, and one that ends in `/**`
fits only what the folder holds. -/
def wholePattern (anchored : Bool) (s : Text) : Text :=
  let inFolder := anchored || s.contains '/' || s == ['*', '*']
  let s := if inFolder then s else ['*', '*', '/'] ++ s
  if (Text.before? ['/', '*', '*'] s).isSome then s ++ ['/', '*'] else s

/-- The rule of a pattern whose marks in front are read. A slash at its end means folders only. -/
def ofPattern? (verdict : Verdict) (anchored : Bool) (s : Text) : Option Rule := do
  let (s, onlyFolders) := match Text.before? ['/'] s with
    | some s => ((Text.before? ['\\'] s).getD s, true)
    | none => (s, false)
  return ⟨← readPattern (wholePattern anchored s), verdict, onlyFolders⟩

/-- The rule of a pattern that may start with a slash, which ties it to the folder of its file. -/
def ofSlashed? (verdict : Verdict) : Text → Option Rule
  | '/' :: s => ofPattern? verdict true s
  | s => ofPattern? verdict false s

/-- The rule of a line; comments, empty lines and patterns that cannot be read give none. -/
def ofLine? (line : Text) : Option Rule :=
  match trimLine line with
  | [] => none
  | '#' :: _ => none
  | '\\' :: '!' :: s => ofPattern? .leftOut false ('!' :: s)
  | '\\' :: '#' :: s => ofPattern? .leftOut false ('#' :: s)
  | '!' :: s => ofSlashed? .kept s
  | s => ofSlashed? .leftOut s

def covers (route : Route) (isFolder : Bool) (rule : Rule) : Bool :=
  (isFolder || !rule.onlyFolders) && fits rule.pattern ([Path.slash].intercalate route)

end Rule

/-- The lines of a file of rules up to the first that is not UTF-8; a byte order mark in front does
not count. -/
def ruleLines (bytes : Bytes) : List Text :=
  let readable :=
    match Utf8.decode? bytes with
    | some text => text
    | none =>
      let start := ((Utf8.read bytes).takeWhile (·.isSome)).filterMap id
      (start.reverse.dropWhile (· != '\n')).reverse
  Text.lines (Text.dropOptional readable ['\uFEFF'])

def rulesOf (bytes : Bytes) : List Rule := (ruleLines bytes).filterMap Rule.ofLine?

/-- Where a folder holds its rules, the most important file first. -/
def ruleFiles : List Route :=
  [[".ignore"], [".gitignore"], [".git", "info", "exclude"]].map fun names =>
    names.map fun name => Text.bytes name.toList

/-- The rules of a folder, one list for each of `ruleFiles`, and the names that lead from it to
where the search stands. -/
structure FolderRules where
  ranked : List (List Rule)
  route : Route

namespace FolderRules

def ofFolder (folder : FileTree) : FolderRules :=
  ⟨ruleFiles.map fun place =>
    match (folder.find? place).bind FileTree.bytes? with
    | some bytes => rulesOf bytes
    | none => [], []⟩

def down (name : Bytes) (rules : FolderRules) : FolderRules := ⟨rules.ranked, rules.route ++ [name]⟩

/-- What the files of one rank decide of a name where the search stands. -/
def verdict? (rank : Nat) (name : Bytes) (isFolder : Bool) (rules : FolderRules) : Option Verdict :=
  let ofRank := rules.ranked[rank]?.getD []
  (ofRank.reverse.find? (Rule.covers (rules.route ++ [name]) isFolder)).map Rule.verdict

end FolderRules

/-- The rules in force where a search stands, the nearest folder first. -/
abbrev RulesInForce := List FolderRules

namespace RulesInForce

def enter (folder : FileTree) (rules : RulesInForce) : RulesInForce :=
  FolderRules.ofFolder folder :: rules

/-- The rules of the folders above, one step further down. -/
def down (name : Bytes) (rules : RulesInForce) : RulesInForce := rules.map (FolderRules.down name)

def leavesOut (rules : RulesInForce) (name : Bytes) (isFolder : Bool) : Bool :=
  let verdicts := (List.range ruleFiles.length).flatMap fun rank =>
    rules.filterMap (FolderRules.verdict? rank name isFolder)
  verdicts.head? == some .leftOut

/-- The rules of all folders above a place, which some names lead to from a folder. -/
def above : RulesInForce → Route → FileTree → RulesInForce
  | rules, [], _ => rules
  | rules, name :: route, tree =>
    above (down name (enter tree rules)) route ((tree.child? name).getD (.folder []))

end RulesInForce

end DocSig.Files
