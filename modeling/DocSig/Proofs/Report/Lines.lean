import DocSig.Proofs.Outline.Bare
import DocSig.Proofs.Php.Parser
import DocSig.Proofs.Signature.Spelled
import DocSig.Scan

/-!
The lines of a report.

A signature is written as one line: names hold no line end, and the texts of types hold one only
within a quoted string, which is copied as it stands in the comment. So the lines of a report are
its signatures, unless a quoted string goes over the end of a line.
-/

set_option autoImplicit false

namespace DocSig

open Signature

/-- The characters of a text that are outside of quoted strings; the mark of the string that the
text begins in is given, if it does. -/
def outsideQuotes : Option Char → Text → Text
  | _, [] => []
  | none, c :: s => if isQuote c then outsideQuotes (some c) s else c :: outsideQuotes none s
  | some quote, '\\' :: _ :: s => outsideQuotes (some quote) s
  | some quote, c :: s => outsideQuotes (if c = quote then none else some quote) s

/-- The text closes the strings that it opens, and line ends stand only in them. -/
def BreaksQuoted (s : Text) : Prop :=
  ∃ outside, Bare outside ∧ ∀ rest, outsideQuotes none (s ++ rest) =
    outside ++ outsideQuotes none rest

namespace BreaksQuoted

variable {s t : Text}

theorem nil : BreaksQuoted [] := ⟨[], bare_nil, fun _ => rfl⟩

theorem append (first : BreaksQuoted s) (second : BreaksQuoted t) : BreaksQuoted (s ++ t) := by
  obtain ⟨before, bareBefore, cut⟩ := first
  obtain ⟨behind, bareBehind, further⟩ := second
  refine ⟨before ++ behind, bare_append.mpr ⟨bareBefore, bareBehind⟩, fun rest => ?_⟩
  rw [List.append_assoc, cut, further, List.append_assoc]

theorem char {c : Char} (bare : isBare c = true) : BreaksQuoted [c] := by
  have plain : isQuote c = false := by
    simp only [isBare, isQuote, Bool.and_eq_true, bne_iff_ne, Bool.or_eq_false_iff,
      beq_eq_false_iff_ne] at bare ⊢
    exact ⟨bare.1.2, bare.2⟩
  refine ⟨[c], bare_cons.mpr ⟨bare, bare_nil⟩, fun rest => ?_⟩
  simp [outsideQuotes, plain]

theorem of_bare (bare : Bare s) : BreaksQuoted s := by
  induction s with
  | nil => exact nil
  | cons c s ih =>
      obtain ⟨here, later⟩ := bare_cons.mp bare
      exact (char here).append (ih later)

/-- Behind its opening mark a quoted string is left at the mark that closes it. -/
theorem outsideQuotes_quoted {quote : Char} {body : Text} (plain : quote ≠ '\\')
    (closed : Text.closesAtEnd quote body = true) (rest : Text) :
    outsideQuotes (some quote) (body ++ rest) = outsideQuotes none rest := by
  refine Text.closesAtEnd_induction
    (motive := fun body => outsideQuotes (some quote) (body ++ rest) = outsideQuotes none rest)
    ?_ ?_ ?_ closed
  · simp [outsideQuotes, plain]
  · intro c s ih
    simp [outsideQuotes, ih]
  · intro c s backslash other ih
    simp [outsideQuotes, backslash, other, ih]

theorem quoted (word : DocType.isQuoted s = true) : BreaksQuoted s := by
  obtain ⟨quote, body, rfl, mark, closed⟩ := (DocType.isQuoted_iff s).mp word
  have kind : quote ≠ '\\' ∧ isQuote quote = true := by
    rcases mark with rfl | rfl <;> decide
  refine ⟨[], bare_nil, fun rest => ?_⟩
  simp [outsideQuotes, kind.2, outsideQuotes_quoted kind.1 closed rest]

theorem of_spelled {nested : Bool} (spelled : Spelled nested s) : BreaksQuoted s := by
  induction spelled with
  | nil => exact nil
  | mark plain => exact char (Bool.and_eq_true_iff.mp plain).2
  | separator mark => exact char (isBare_of_class mark (by decide))
  | quoted word => exact quoted word
  | bracketed opens closes _ ih =>
      exact (char (isBare_of_class opens (by decide))).append
        (ih.append (char (isBare_of_class closes (by decide))))
  | append _ _ first second => exact first.append second

end BreaksQuoted

structure Signature.BreaksQuoted (signature : Signature) : Prop where
  name : Bare signature.name
  types : ∀ set ∈ signature.results :: signature.parameters, ∀ s ∈ set, DocSig.BreaksQuoted s

namespace Signature

variable {signature : Signature}

theorem breaksQuoted_setText {set : TypeSet} (types : ∀ s ∈ set, DocSig.BreaksQuoted s) :
    DocSig.BreaksQuoted (setText set) :=
  Text.join_induction .nil (fun _ _ => .append) (.char (by decide)) types

/-- Fields end outside of quotes, so none of them changes what is quoted in the next one. -/
theorem BreaksQuoted.line (given : signature.BreaksQuoted) :
    DocSig.BreaksQuoted signature.line := by
  have mark : DocSig.BreaksQuoted [';', ' '] := .of_bare (forall_of_all (by decide))
  obtain ⟨results, parameters⟩ := List.forall_mem_cons.mp given.types
  have fields : ∀ field ∈ signature.name :: setText signature.results ::
      signature.parameters.map setText, DocSig.BreaksQuoted field := by
    refine List.forall_mem_cons.mpr ⟨.of_bare given.name,
      List.forall_mem_cons.mpr ⟨breaksQuoted_setText results, ?_⟩⟩
    intro field found
    obtain ⟨set, inside, rfl⟩ := List.mem_map.mp found
    exact breaksQuoted_setText (parameters set inside)
  unfold Signature.line
  dsimp only
  generalize signature.name :: setText signature.results :: signature.parameters.map setText =
    texts at fields
  induction texts with
  | nil => exact .nil
  | cons field texts ih =>
      obtain ⟨here, later⟩ := List.forall_mem_cons.mp fields
      exact (here.append mark).append (ih later)

theorem getLast?_line (signature : Signature) : signature.line.getLast? = some ' ' := by
  have ends : ∀ (fields : List Text) (field : Text),
      ((field :: fields).flatMap fun field => field ++ [';', ' ']).getLast? = some ' ' := by
    intro fields
    induction fields with
    | nil => intro field; simp
    | cons next fields ih =>
        intro field
        rw [List.flatMap_cons, List.getLast?_append, ih next]
        rfl
  exact ends _ _

theorem BreaksQuoted.mapTypes (given : signature.BreaksQuoted) {f : Text → Text}
    (keeps : ∀ s, DocSig.BreaksQuoted s → DocSig.BreaksQuoted (f s)) :
    (signature.mapTypes f).BreaksQuoted := by
  obtain ⟨results, parameters⟩ := List.forall_mem_cons.mp given.types
  have images : ∀ set : TypeSet, (∀ s ∈ set, DocSig.BreaksQuoted s) →
      ∀ s ∈ set.map f, DocSig.BreaksQuoted s := by
    intro set types s found
    obtain ⟨t, inside, rfl⟩ := TypeSet.mem_map.mp found
    exact keeps t (types t inside)
  refine ⟨given.name, List.forall_mem_cons.mpr ⟨images _ results, ?_⟩⟩
  intro set found
  obtain ⟨declared, inside, rfl⟩ := List.mem_map.mp found
  exact images declared (parameters declared inside)

end Signature

/-- Only a class name is told in full, and what it stands for is bare as it is. -/
theorem breaksQuoted_qualifyType {scope : Scope} (given : scope.Bare) {s : Text}
    (one : BreaksQuoted s) : BreaksQuoted (qualifyType scope s) := by
  unfold qualifyType
  split
  case isFalse => exact one
  case isTrue plain =>
    have named : Bare s := by
      simp only [isClassName, Bool.and_eq_true, List.all_eq_true] at plain
      intro c found
      exact @isBare_of_class (fun c => isAlphanumeric c || c == '_' || c == '\\') c
        (plain.1.2 c found) (by decide +kernel)
    have told := given.resolve named
    split
    case h_1 found resolved => rw [resolved] at told; exact .of_bare told
    case h_2 => exact one
    case h_3 => exact one

theorem breaksQuoted_texts {type : DocType} (shaped : DocType.WellShaped type) :
    ∀ s ∈ type.toAlternatives.texts, BreaksQuoted s := by
  have whole {type : DocType} (shaped : DocType.WellShaped type) : BreaksQuoted type.text :=
    .of_spelled (spelled_text shaped false)
  intro s found
  cases type with
  | union members =>
      obtain ⟨member, inside, rfl⟩ := List.mem_map.mp found
      cases shaped with
      | union _ _ each => exact whole (each member inside)
  | _ =>
      rw [List.mem_singleton.mp found]
      exact whole shaped

namespace Docblock

structure BreaksQuoted (doc : Docblock) : Prop where
  parameters : ∀ parameter ∈ doc.parameters, ∀ s ∈ parameter.type.texts, DocSig.BreaksQuoted s
  results : ∀ result ∈ doc.results, ∀ s ∈ result.texts, DocSig.BreaksQuoted s

theorem breaksQuoted_parseTagType {label body rest : Text} {type : Alternatives}
    (given : parseTagType label body = .ok (type, rest)) :
    ∀ s ∈ type.texts, DocSig.BreaksQuoted s := by
  unfold parseTagType at given
  dsimp only at given
  split at given
  case isTrue => cases given
  case isFalse =>
    split at given
    case h_1 => cases given
    case h_2 read rest parsed =>
      cases given
      exact breaksQuoted_texts (DocType.wellShaped_of_parseType parsed)

theorem breaksQuoted_parseParameter {body : Text} {parameter : Parameter}
    (given : parseParameter body = .ok parameter) :
    ∀ s ∈ parameter.type.texts, DocSig.BreaksQuoted s := by
  obtain ⟨⟨type, rest⟩, read, variable_⟩ := DocType.bind_eq_ok.mp given
  have each := breaksQuoted_parseTagType read
  dsimp only at variable_
  split at variable_
  case h_1 => cases variable_
  case h_2 => cases variable_; exact each

theorem breaksQuoted_ofTags {tags : List Tag} {doc : Docblock} (given : ofTags tags = .ok doc) :
    doc.BreaksQuoted := by
  fun_induction ofTags tags generalizing doc with
  | case1 => cases given; exact ⟨nofun, nofun⟩
  | case2 tag tags label ih =>
      obtain ⟨parameter, read, given⟩ := DocType.bind_eq_ok.mp given
      obtain ⟨doc, others, given⟩ := DocType.bind_eq_ok.mp given
      have later := ih others
      cases given
      exact ⟨List.forall_mem_cons.mpr ⟨breaksQuoted_parseParameter read, later.parameters⟩,
        later.results⟩
  | case3 tag tags _ label ih =>
      obtain ⟨⟨type, rest⟩, read, given⟩ := DocType.bind_eq_ok.mp given
      obtain ⟨doc, others, given⟩ := DocType.bind_eq_ok.mp given
      have later := ih others
      cases given
      exact ⟨later.parameters,
        List.forall_mem_cons.mpr ⟨breaksQuoted_parseTagType read, later.results⟩⟩
  | case4 tag tags _ _ ih => exact ih given

theorem breaksQuoted_parse {comment : Text} {doc : Docblock} (given : parse comment = .ok doc) :
    doc.BreaksQuoted := by
  unfold parse at given
  split at given
  case h_1 => cases given
  case h_2 tags _ => exact breaksQuoted_ofTags given

end Docblock

theorem Signature.breaksQuoted_ofDocblock {name : Text} {doc : Docblock} {signature : Signature}
    (named : Bare name) (types : doc.BreaksQuoted) (fits : ofDocblock name doc = .ok signature) :
    signature.BreaksQuoted := by
  have ofSet : ∀ type : Alternatives, (∀ s ∈ type.texts, DocSig.BreaksQuoted s) →
      ∀ s ∈ type.toSet, DocSig.BreaksQuoted s :=
    fun type each s found => each s (TypeSet.mem_ofList.mp found)
  have parameters : ∀ set ∈ doc.parameters.map fun parameter => parameter.type.toSet,
      ∀ s ∈ set, DocSig.BreaksQuoted s :=
    List.forall_mem_map.mpr fun parameter inside =>
      ofSet parameter.type (types.parameters parameter inside)
  unfold ofDocblock at fits
  dsimp only at fits
  split at fits
  case h_1 =>
    cases fits
    exact ⟨named, List.forall_mem_cons.mpr ⟨fun s found => absurd found TypeSet.not_mem_empty,
      parameters⟩⟩
  case h_2 result declared =>
    cases fits
    have last := types.results result (declared ▸ List.mem_singleton_self result)
    exact ⟨named, List.forall_mem_cons.mpr ⟨ofSet result last, parameters⟩⟩
  case h_3 => cases fits

namespace Extraction

variable {outline : Outline}

theorem bare_declaredName (named : ∀ entry ∈ outline.root.labels, entry.kind.Bare) {entry : Entry}
    (own : entry.kind.Bare) : Bare (declaredName (.ofOutline outline) entry) := by
  unfold declaredName
  cases told : (NameTable.ofOutline outline).name? entry.id with
  | some name => exact NameTable.bare_name? named name told
  | none => exact NodeKind.bare_ownName own

theorem bare_signatureName (named : ∀ entry ∈ outline.root.labels, entry.kind.Bare) {entry : Entry}
    (own : entry.kind.Bare) (kind : FunctionKind) :
    Bare (signatureName outline (.ofOutline outline) (.ofOutline outline) entry kind) := by
  have alone := bare_declaredName named own
  unfold signatureName
  split
  case isTrue => exact alone
  case isFalse =>
    split
    case h_2 => exact alone
    case h_1 parent found =>
      split
      case isFalse => exact alone
      case isTrue =>
        obtain ⟨id, _, here⟩ := Option.bind_eq_some_iff.mp found
        have inside : parent.label ∈ outline.root.labels :=
          List.mem_map_of_mem (List.mem_of_find?_eq_some here)
        have before := bare_declaredName named (named parent.label inside)
        have between : Bare (separator kind) := by
          cases kind <;> exact forall_of_all (by decide)
        exact bare_append.mpr ⟨bare_append.mpr ⟨before, between⟩, NodeKind.bare_ownName own⟩

/-- What an outline with bare names gives. -/
theorem breaksQuoted_ofOutline (named : ∀ entry ∈ outline.root.labels, entry.kind.Bare)
    (qualified : Bool) :
    ∀ signature ∈ (ofOutline outline qualified).signatures, signature.BreaksQuoted := by
  intro signature found
  rw [ofOutline, ofTables_eq] at found
  obtain ⟨given, among, same⟩ := List.mem_filterMap.mp found
  obtain ⟨entry, visited, here⟩ := List.mem_filterMap.mp among
  have own : entry.kind.Bare := by
    obtain ⟨tree, inside, rfl⟩ := List.mem_map.mp visited
    exact named _ (List.mem_map_of_mem ((Rose.postorder_perm outline.root).mem_iff.mp inside))
  cases outcome_eq_some_iff.mp here with
  | diagnostic => cases same
  | @signature kind comment doc declared function usable reads fits =>
      cases same
      have plain := Signature.breaksQuoted_ofDocblock (bare_signatureName named own kind)
        (Docblock.breaksQuoted_parse reads) fits
      unfold told
      split
      case h_2 => exact plain
      case h_1 scope there =>
        split
        case isFalse => exact plain
        case isTrue =>
          have around := NameTable.bare_scope? named scope there
          exact plain.mapTypes fun s => breaksQuoted_qualifyType around

end Extraction

namespace Report

variable {parser : Php.Parser} {reports : List Report}

theorem breaksQuoted_allFound
    (named : ∀ source program, parser source = some program → program.errors = [] → program.Bare)
    (sources : ∀ report ∈ reports, ∀ extraction, report.outcome = .ok extraction →
      ∃ qualified source, Extraction.ofSource parser qualified source = .ok extraction) :
    ∀ item ∈ allFound reports, item.signature.BreaksQuoted := by
  intro item among
  obtain ⟨report, inside, here⟩ := List.mem_flatMap.mp among
  unfold found at here
  split at here
  case h_2 => cases here
  case h_1 extraction given =>
    obtain ⟨signature, listed, rfl⟩ := List.mem_map.mp here
    obtain ⟨qualified, source, gives⟩ := sources report inside extraction given
    obtain ⟨outline, read, rfl⟩ := Php.ofSource_eq_ok_iff.mp gives
    exact Extraction.breaksQuoted_ofOutline (Php.bare_outline (named source) read) qualified
      signature listed

/-- Where no line end and no quote stands in the names that a parser gives, line ends stand in
quoted strings only in the lines of what sources give, and the lines that are written are these
lines, one for each signature, exactly if none stands there. -/
theorem lines_render
    (named : ∀ source program, parser source = some program → program.errors = [] → program.Bare)
    (sources : ∀ report ∈ reports, ∀ extraction, report.outcome = .ok extraction →
      ∃ qualified source, Extraction.ofSource parser qualified source = .ok extraction) :
    (∀ item ∈ allFound reports, ∀ c ∈ outsideQuotes none item.signature.line,
      c ≠ '\n' ∧ c ≠ '\r') ∧
    (Text.lines (render .line reports) = (allFound reports).map (fun item => item.signature.line) ↔
      ∀ item ∈ allFound reports, '\n' ∉ item.signature.line) := by
  refine ⟨?_, ?_, ?_⟩
  · intro item found c here
    obtain ⟨outside, bare, cut⟩ := (breaksQuoted_allFound named sources item found).line
    have whole : outsideQuotes none item.signature.line = outside := by
      simpa [outsideQuotes] using cut []
    have plain := bare c (whole ▸ here)
    refine ⟨?_, ?_⟩
    · rintro rfl
      exact absurd plain (by decide)
    · rintro rfl
      exact absurd plain (by decide)
  · intro same item found
    refine Text.forall_mem_lines (render .line reports) _ ?_
    rw [same]
    exact List.mem_map_of_mem found
  · intro plain
    have written : render .line reports =
        ((allFound reports).map fun item => item.signature.line).flatMap (· ++ ['\n']) := by
      simp [render, lines, List.flatMap_map]
    rw [written]
    refine Text.lines_flatMap ?_ ?_
    · exact List.forall_mem_map.mpr plain
    · refine List.forall_mem_map.mpr fun item _ => ?_
      rw [Signature.getLast?_line]
      decide

def wrappedSource : Text := "<?php
/**
 * @param array<
 *   'a b', int
 * > $x
 * @return int
 */
function f($x) \x7b\x7d".toList

def wrappedReport : Report :=
  ⟨"wrapped.php".toList, Extraction.ofSource Php.parser false wrappedSource⟩

theorem lines_wrappedReport :
    (∀ source program, Php.parser source = some program → program.errors = [] → program.Bare) ∧
    (∀ report ∈ [wrappedReport], ∀ extraction, report.outcome = .ok extraction →
      ∃ qualified source, Extraction.ofSource Php.parser qualified source = .ok extraction) ∧
    Text.lines (render .line [wrappedReport]) = ["f; int; array<'a b', int>; ".toList] := by
  have named : ∀ source program, Php.parser source = some program → program.errors = [] →
      program.Bare := fun _ _ given _ => Php.parser_bare given
  have sources : ∀ report ∈ [wrappedReport], ∀ extraction, report.outcome = .ok extraction →
      ∃ qualified source, Extraction.ofSource Php.parser qualified source = .ok extraction := by
    intro report found extraction gives
    rw [List.mem_singleton.mp found] at gives
    exact ⟨false, wrappedSource, gives⟩
  have written : (allFound [wrappedReport]).map (fun item => item.signature.line) =
      ["f; int; array<'a b', int>; ".toList] := by decide +kernel
  have plain : ∀ line ∈ (allFound [wrappedReport]).map (fun item => item.signature.line),
      '\n' ∉ line := by
    rw [written]
    exact List.forall_mem_cons.mpr ⟨by decide, nofun⟩
  have alike := (lines_render named sources).2.mpr fun item found =>
    plain item.signature.line (List.mem_map_of_mem found)
  exact ⟨named, sources, alike.trans written⟩

def brokenSource : Text := "<?php
/**
 * @return 'a
 * b'
 */
function f() \x7b\x7d".toList

def brokenReport : Report :=
  ⟨"broken.php".toList, Extraction.ofSource Php.parser false brokenSource⟩

/-- One signature of a source is written as two lines. -/
theorem lines_brokenReport :
    (allFound [brokenReport]).map (fun item => item.signature.line) = ["f; 'a\nb'; ".toList] ∧
    Text.lines (render .line [brokenReport]) = ["f; 'a".toList, "b'; ".toList] :=
  ⟨by decide +kernel, by decide +kernel⟩

end Report

end DocSig
