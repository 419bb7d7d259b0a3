import DocSig.Proofs.Docblock.Starts
import DocSig.Proofs.Docblock.Tags
import DocSig.Proofs.Extraction.Independence
import DocSig.Proofs.Php.Lexer
import DocSig.Proofs.Php.WellFormed

/-!
What comes of the comments of a source, where each documentation comment stands between its
delimiters.

The outline hands on such comments alone (`delimited_outline`), so no function of a source is
passed over for a blank comment, and none is reported for a comment without an end
(`ofSource_commented`). The lexer here gives no other documentation comments: it takes a comment
for documentation only if it begins with a slash and two asterisks of which the second one is not
also the end (`delimited_cut`).
-/

set_option autoImplicit false

namespace DocSig

open Rose

/-- A comment with both delimiters, and with room for both. -/
structure IsDelimited (comment : Text) : Prop where
  opens : "/**".toList <+: comment
  closes : "*/".toList <:+ comment
  apart : 5 ≤ comment.length

theorem isDelimited_iff {comment : Text} :
    IsDelimited comment ↔ ∃ inner, comment = "/**".toList ++ (inner ++ "*/".toList) := by
  have three : "/**".toList.length = 3 := rfl
  have two : "*/".toList.length = 2 := rfl
  constructor
  · rintro ⟨⟨rest, rfl⟩, closes, apart⟩
    rw [List.length_append, three] at apart
    have behind : "*/".toList <:+ rest :=
      List.suffix_of_suffix_length_le closes (List.suffix_append _ _) (by omega)
    obtain ⟨inner, rfl⟩ := behind
    exact ⟨inner, rfl⟩
  · rintro ⟨inner, rfl⟩
    refine ⟨List.prefix_append _ _, ?_, ?_⟩
    · rw [← List.append_assoc]
      exact List.suffix_append _ _
    · rw [List.length_append, List.length_append, three, two]
      omega

theorem IsDelimited.inner {comment : Text} (delimited : IsDelimited comment) :
    ∃ inner, Docblock.inner? comment = some inner := by
  obtain ⟨inner, rfl⟩ := isDelimited_iff.mp delimited
  exact ⟨inner, Docblock.inner?_comment inner⟩

/-- A comment between its delimiters is not blank. -/
theorem IsDelimited.trim_ne_nil {comment : Text} (delimited : IsDelimited comment) :
    comment.trim ≠ [] := by
  obtain ⟨inner, found⟩ := delimited.inner
  intro blank
  rw [Docblock.inner?, blank] at found
  cases found

namespace Php

namespace Lexer

/-- A comment goes up to its end. -/
theorem blockComment_ends {s comment rest : Text} (found : blockComment s = some (comment, rest)) :
    ∃ front, comment = front ++ "*/".toList := by
  fun_induction blockComment s generalizing comment with
  | case1 => cases found
  | case2 s =>
      cases found
      exact ⟨[], rfl⟩
  | case3 c s _ ih =>
      obtain ⟨⟨inner, tail⟩, behind, same⟩ := Option.map_eq_some_iff.mp found
      cases same
      obtain ⟨front, rfl⟩ := ih behind
      exact ⟨c :: front, rfl⟩

/-- The second asterisk of a documentation comment is not that of its end. -/
theorem delimited_comment {s comment rest : Text} (kind : commentKind s = .docComment)
    (found : blockComment s = some (comment, rest)) : IsDelimited ('/' :: '*' :: comment) := by
  unfold commentKind at kind
  split at kind
  · cases kind
  · next s open_ =>
      rw [blockComment] at found
      · obtain ⟨⟨inner, tail⟩, behind, same⟩ := Option.map_eq_some_iff.mp found
        cases same
        obtain ⟨front, rfl⟩ := blockComment_ends behind
        exact isDelimited_iff.mpr ⟨front, rfl⟩
      · exact fun tail _ same => open_ tail same
  · cases kind

end Lexer

/-- If a piece is a documentation comment, it is delimited as one. -/
def Cut.Delimited (cut : Cut) : Prop := cut.kind = .trivia .docComment → IsDelimited cut.text

namespace Lexer

section

variable {s : Text} {mode : Mode} {below : List Mode} {found : Cut}

theorem delimited_cutHtml (s : Text) (below : List Mode) : (cutHtml s below).Delimited := by
  unfold cutHtml
  grind [Cut.Delimited]

theorem delimited_cutTemplate {closing : Closing}
    (given : cutTemplate closing s below = some found) : found.Delimited := by
  unfold cutTemplate at given
  grind [Cut.Delimited]

theorem delimited_cutSymbol (given : cutSymbol s mode below = some found) : found.Delimited := by
  unfold cutSymbol at given
  grind [Cut.Delimited, Option.map_eq_some_iff]

theorem delimited_cutQuoted {quote : Char} {mark : Text}
    (given : cutQuoted quote mark s below = some found) : found.Delimited := by
  unfold cutQuoted at given
  grind [Cut.Delimited]

theorem delimited_cutWord (s : Text) (mode : Mode) (below : List Mode) :
    (cutWord s mode below).Delimited := by
  intro comment
  unfold cutWord at comment
  split at comment
  · cases comment
  · dsimp only at comment
    split at comment <;> cases comment

theorem delimited_cutCode (given : cutCode s mode below = some found) : found.Delimited := by
  -- one branch gives documentation; it is behind a slash and an asterisk
  unfold cutCode at given
  grind [Cut.Delimited, Option.map_eq_some_iff, delimited_comment, delimited_cutSymbol,
    delimited_cutQuoted, delimited_cutWord]

theorem delimited_cut {modes : List Mode} (given : cut modes s = some found) :
    found.Delimited := by
  unfold cut at given
  split at given
  · cases given
  · cases given
    exact delimited_cutHtml _ _
  · exact delimited_cutTemplate given
  · cases given
    nofun
  · exact delimited_cutCode given

end

end Lexer

/-- Every documentation comment of a source is delimited. -/
theorem Lexemes.delimited_ofSource {source : Text} {lexemes : Lexemes}
    (given : Lexemes.ofSource source = some lexemes) :
    ∀ trivia ∈ lexemes.trivia, trivia.kind = .docComment → IsDelimited trivia.text := by
  obtain ⟨pieces, cut, rfl⟩ := Option.map_eq_some_iff.mp given
  intro trivia found
  obtain ⟨⟨kind, text, start⟩, inside, read⟩ := List.mem_filterMap.mp found
  cases kind with
  | token kind => cases read
  | trivia kind =>
      cases read
      intro comment
      exact Lexer.forall_pieces
        (fun kind text => kind = .trivia .docComment → IsDelimited text) Lexer.delimited_cut cut _
        inside (congrArg PieceKind.trivia comment)

/-- What documents something is a documentation comment of the source. -/
theorem mem_of_nearestComment {bytes : List UInt8} {comment : Text} {earlier : List Trivia} :
    ∀ {covered : Nat}, nearestComment bytes covered earlier = some comment →
      ∃ trivia ∈ earlier, trivia.kind = .docComment ∧ trivia.text = comment := by
  induction earlier with
  | nil =>
      intro covered found
      cases found
  | cons trivia earlier ih =>
      intro covered found
      have later : nearestComment bytes trivia.start earlier = some comment →
          ∃ other ∈ trivia :: earlier, other.kind = .docComment ∧ other.text = comment := by
        intro found
        obtain ⟨other, inside, read⟩ := ih found
        exact ⟨other, List.mem_cons_of_mem trivia inside, read⟩
      rw [nearestComment] at found
      split at found
      · split at found
        · next kind => exact ⟨trivia, List.mem_cons_self, kind, Option.some.inj found⟩
        · exact later found
        · exact later found
        · exact later found
      · cases found

/-- The comments of some trees are documentation comments of the source. -/
def CommentsFrom (source : SourceText) (trees : List (Rose Node)) : Prop :=
  ∀ node ∈ labelsAll trees, ∀ comment ∈ node.comment,
    ∃ trivia ∈ source.trivia, trivia.kind = .docComment ∧ trivia.text = comment

namespace SourceText

variable (source : SourceText)

/-- Only functions take a comment, and they take it from the source. -/
theorem built_comments : source.Built (CommentsFrom source) (CommentsFrom source) := by
  refine source.built_each (fun _ _ => nofun) fun start kind name comment found => ?_
  obtain ⟨trivia, inside, read⟩ := mem_of_nearestComment found
  exact ⟨trivia, List.mem_of_mem_take (List.mem_reverse.mp inside), read⟩

end SourceText

def Program.Delimited (program : Program) : Prop :=
  ∀ trivia ∈ program.trivia, trivia.kind = .docComment → IsDelimited trivia.text

/-- The parser here gives no other documentation comments than delimited ones. -/
theorem parser_delimited {source : Text} {program : Program}
    (given : Php.parser source = some program) : program.Delimited := by
  unfold Php.parser at given
  split at given
  · cases given
    nofun
  · next lexemes cut =>
      have delimited := Lexemes.delimited_ofSource cut
      split at given <;> (cases given; exact delimited)

/-- Every comment in the outline of a source is one of the program's documentation comments. -/
theorem delimited_outline {parser : Parser} {source : Text} {outline : Outline}
    (delimited : ∀ program, parser source = some program → program.Delimited)
    (read : outlineOf parser source = .ok outline) :
    ∀ node ∈ outline.root.labels, ∀ comment ∈ node.comment, IsDelimited comment := by
  obtain ⟨program, given, -, rfl⟩ := outlineOf_eq_ok read
  intro node found comment documents
  rw [SourceText.outline_eq_ofForest] at found
  rcases Outline.mem_labels_ofForest found with rfl | ⟨inside, -⟩
  · cases documents
  · obtain ⟨trivia, listed, kind, rfl⟩ :=
      (SourceText.built_comments _).ofStatements program.statements _ inside comment documents
    exact delimited program given trivia listed kind

end Php

namespace Extraction

def commented (outline : Outline) : List Entry :=
  (outline.root.postorder.map Rose.label).filter fun node =>
    node.kind.function?.isSome && node.comment.isSome

variable {outline : Outline}

/-- Where every comment is delimited, none is dropped for being blank. -/
theorem documented_eq_commented
    (delimited : ∀ node ∈ outline.root.labels, ∀ comment ∈ node.comment, IsDelimited comment) :
    documented outline = commented outline := by
  refine List.filter_congr fun node found => ?_
  rw [isDocumented, usableComment]
  cases given : node.comment with
  | none => rfl
  | some comment =>
      have visible := (delimited node (mem_map_postorder.mp found) comment given).trim_ne_nil
      simp [Option.filter, visible]

theorem ofDocblock_ne_unterminated (name : Text) (doc : Docblock) :
    Signature.ofDocblock name doc ≠ .error .unterminated := by
  unfold Signature.ofDocblock
  dsimp only
  split <;> nofun

/-- A delimited comment is never refused for having no end. -/
theorem fault_ne_unterminated {parents : ParentTable} {names : NameTable} {qualified : Bool}
    {node : Entry} {diagnostic : Diagnostic}
    (delimited : ∀ comment ∈ node.comment, IsDelimited comment)
    (contributes : Contributes outline parents names Docblock.parse qualified node
      (.error diagnostic)) : diagnostic.fault ≠ .unterminated := by
  cases contributes with
  | diagnostic function usable fails =>
      rintro rfl
      rcases fails with unread | ⟨doc, -, unfit⟩
      · obtain ⟨inner, found⟩ := (delimited _ (comment_of_usable usable)).inner
        rw [(Docblock.tags?_eq_tagAt _).2.mp unread] at found
        cases found
      · exact ofDocblock_ne_unterminated _ doc unfit

/-- Each function of a source that has a comment gives one signature or one diagnostic, in order,
and nothing else does; and no diagnostic is for a comment without an end. -/
theorem ofSource_commented {parser : Php.Parser} {source : Text}
    (delimited : ∀ program, parser source = some program → program.Delimited)
    (read : Php.outlineOf parser source = .ok outline) (qualified : Bool) :
    ∃ outcomes, ofSource parser qualified source =
        .ok ⟨succeeded outcomes, failed outcomes, (NameTable.ofOutline outline).warnings⟩ ∧
      List.Forall₂ (Contributes outline (.ofOutline outline) (.ofOutline outline) Docblock.parse
        qualified) (commented outline) outcomes ∧
      ∀ diagnostic ∈ failed outcomes, diagnostic.fault ≠ .unterminated := by
  have terminated := Php.delimited_outline delimited read
  refine ⟨outcomes outline (.ofOutline outline) (.ofOutline outline) Docblock.parse qualified,
    ?_, ?_, ?_⟩
  · exact Php.ofSource_eq_ok_iff.mpr ⟨outline, read, ofTables_eq _ _ _ _ _⟩
  · rw [← documented_eq_commented terminated]
    exact contributes_outcomes
  · intro diagnostic found
    obtain ⟨node, inside, given⟩ := List.mem_filterMap.mp (mem_failed.mp found)
    exact fault_ne_unterminated (terminated node (mem_map_postorder.mp inside))
      (outcome_eq_some_iff.mp given)

/-- A function with the shortest comment there is, and one with a comment that cannot be used. -/
def shortComments : Text :=
  "<?php /***/ function f() \x7b\x7d /** @return */ function g() \x7b\x7d".toList

theorem ofSource_shortComments :
    ∃ outline outcomes, Php.outlineOf Php.parser shortComments = .ok outline ∧
      (commented outline).length = 2 ∧
      ofSource Php.parser false shortComments =
        .ok ⟨succeeded outcomes, failed outcomes, (NameTable.ofOutline outline).warnings⟩ ∧
      (succeeded outcomes).map Signature.name = ["f".toList] ∧
      (failed outcomes).map Diagnostic.fault = [.missingType "@return".toList] ∧
      ∀ diagnostic ∈ failed outcomes, diagnostic.fault ≠ .unterminated := by
  have told : (ofSource Php.parser false shortComments).toOption.map (fun extraction =>
      (extraction.signatures.map Signature.name, extraction.diagnostics.map Diagnostic.fault)) =
        some (["f".toList], [.missingType "@return".toList]) := by decide +kernel
  have count : (Php.outlineOf Php.parser shortComments).toOption.map
      (fun outline => (commented outline).length) = some 2 := by decide +kernel
  cases read : Php.outlineOf Php.parser shortComments with
  | error fault =>
      rw [read] at count
      cases count
  | ok outline =>
      obtain ⟨outcomes, given, -, terminated⟩ :=
        ofSource_commented (fun _ => Php.parser_delimited) read false
      rw [given] at told
      rw [read] at count
      obtain ⟨names, faults⟩ := Prod.mk.inj (Option.some.inj told)
      exact ⟨outline, outcomes, rfl, Option.some.inj count, given, names, faults, terminated⟩

end Extraction

end DocSig
