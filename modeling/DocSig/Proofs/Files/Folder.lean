import DocSig.Php.Parser
import DocSig.Proofs.Files.Store
import DocSig.Scan
import Mathlib.Data.List.Sort
import Mathlib.Data.List.TakeWhile

/-!
The reports on the files of a folder.

A folder has the reports of just the files that are wanted, in the order of their paths step by
step, and each report tells what its own file holds (`ReportsOn`). So neither the order in which a
walk comes upon files nor what other files hold shows in it (`path_folder`).
-/

set_option autoImplicit false

namespace DocSig

/-- A file name has something before its last dot, and behind it an extension. -/
def EndsIn (name extension : Bytes) : Prop :=
  ∃ stem, stem ≠ [] ∧ name = stem ++ Path.dot :: extension ∧ Path.dot ∉ extension

/-- The last extension of a file name is one of some extensions, up to the case of ASCII letters. -/
def Wanted (extensions : List Text) (name : Bytes) : Prop :=
  ∃ extension wanted, EndsIn name extension ∧ wanted ∈ extensions ∧
    Text.lower (Path.shown extension) = Text.lower wanted

namespace Path

open List in
theorem extensionOf?_eq_some {name extension : Bytes} :
    extensionOf? name = some extension ↔ EndsIn name extension := by
  unfold extensionOf?
  dsimp only
  constructor
  · intro found
    have whole := takeWhile_append_dropWhile (p := (· != dot)) (l := name.reverse)
    have mark := head?_dropWhile_not (· != dot) name.reverse
    split at found
    · next first last others behind =>
        rw [behind] at whole mark
        obtain rfl : first = dot := by simpa using mark
        cases found
        have ends : name = (last :: others).reverse ++
            dot :: (name.reverse.takeWhile (· != dot)).reverse := by
          simpa using (congrArg reverse whole).symm
        refine ⟨(last :: others).reverse, by simp, ends, fun listed => ?_⟩
        simpa using mem_takeWhile_imp (mem_reverse.mp listed)
    · cases found
  · rintro ⟨stem, some_, rfl, last⟩
    have plain : ∀ b ∈ extension.reverse, (b != dot) = true := by
      intro b listed
      exact bne_iff_ne.mpr fun same => last (same ▸ mem_reverse.mp listed)
    have whole : (stem ++ dot :: extension).reverse =
        extension.reverse ++ dot :: stem.reverse := by simp
    obtain ⟨first, others, back⟩ := exists_cons_of_ne_nil (reverse_ne_nil_iff.mpr some_)
    rw [whole, dropWhile_append_of_pos plain, takeWhile_append_of_pos plain, back]
    simp

/-- The extension of what a route leads to is that of the last name. -/
theorem hasExtension_follow {folder : Path} {route : Route} {name : Bytes}
    {extensions : List Text} (named : ∀ name ∈ route, IsName name)
    (last : route.getLast? = some name) :
    (folder.follow route).hasExtension extensions = true ↔ Wanted extensions name := by
  have ends : (folder.follow route).components.getLast? = some (.name name) := by
    rw [components_follow named, List.getLast?_append, List.getLast?_map, last]
    rfl
  unfold hasExtension extension? Wanted
  rw [ends]
  simp only [Option.any_eq_true, List.any_eq_true, Text.sameIgnoringCase, beq_iff_eq,
    extensionOf?_eq_some]
  constructor
  · rintro ⟨extension, ends, wanted, listed, same⟩
    exact ⟨extension, wanted, ends, listed, same⟩
  · rintro ⟨extension, wanted, ends, listed, same⟩
    exact ⟨extension, ends, wanted, listed, same⟩

theorem notAfter_iff {a b : Path} : a.notAfter b = true ↔ ¬ b.key < a.key := by
  simp [notAfter]

end Path

namespace Scan

variable {parser : Php.Parser} {files : FileSystem} {options : ScanOptions} {path : Path}
  {tree : FileTree} {extensions : List Text}

/-- A report on what a route leads to: a wanted file, whose own content alone tells the outcome. -/
inductive ReportsOn (parser : Php.Parser) (options : ScanOptions) (path : Path) (tree : FileTree)
    (route : Route) : FileReport → Prop
  | read {name bytes : Bytes} (stands : tree.find? route = some (.file (.ok bytes)))
      (last : route.getLast? = some name) (wanted : Wanted options.extensions name) :
      ReportsOn parser options path tree route
        ⟨path.follow route,
          Extraction.ofSource parser options.qualified (Utf8.decodeLossy bytes)⟩
  | unread {name : Bytes} {reason : Text}
      (stands : tree.find? route = some (.file (.error reason)))
      (last : route.getLast? = some name) (wanted : Wanted options.extensions name) :
      ReportsOn parser options path tree route
        ⟨path.follow route, .error (.unreadable (path.follow route) reason)⟩

theorem reportsOn_iff {route : Route} {report : FileReport} :
    ReportsOn parser options path tree route report ↔ ∃ content name,
      tree.find? route = some (.file content) ∧ route.getLast? = some name ∧
        Wanted options.extensions name ∧ report = ⟨path.follow route,
          ofContent parser options.qualified (path.follow route) content⟩ := by
  constructor
  · intro reports
    cases reports with
    | read stands last wanted => exact ⟨_, _, stands, last, wanted, rfl⟩
    | unread stands last wanted => exact ⟨_, _, stands, last, wanted, rfl⟩
  · rintro ⟨content, name, stands, last, wanted, rfl⟩
    cases content with
    | ok bytes => exact .read stands last wanted
    | error reason => exact .unread stands last wanted

/-- The files of a folder that are read are those with a wanted extension. -/
theorem mem_filesIn (holds : files.Holds path tree) {found : Path} :
    found ∈ filesIn files extensions path ↔ ∃ route content name,
      tree.find? route = some (.file content) ∧ route.getLast? = some name ∧
        Wanted extensions name ∧ found = path.follow route := by
  obtain ⟨routes, walks, walked⟩ := holds.walk
  rw [filesIn, List.mem_mergeSort, walked, List.mem_filter, List.mem_map, Bool.and_eq_true]
  constructor
  · rintro ⟨⟨route, listed, rfl⟩, file, extended⟩
    obtain ⟨sub, stands⟩ := (walks.complete route).mp listed
    rw [FileSystem.isFile, holds.kind route sub stands] at file
    cases sub with
    | file content =>
        have down : route ≠ [] := by
          rintro rfl
          rw [FileTree.find?_nil] at stands
          have folder := holds.folder
          rw [Option.some.inj stands] at folder
          cases folder
        obtain ⟨name, last⟩ := Option.isSome_iff_exists.mp (List.getLast?_isSome.mpr down)
        have wanted :=
          (Path.hasExtension_follow (holds.named route _ stands) last).mp extended
        exact ⟨route, content, name, stands, last, wanted, rfl⟩
    | folder entries => cases file
    | «sealed» reason => cases file
  · rintro ⟨route, content, name, stands, last, wanted, rfl⟩
    refine ⟨⟨route, (walks.complete route).mpr ⟨_, stands⟩, rfl⟩, ?_, ?_⟩
    · rw [FileSystem.isFile, holds.kind route _ stands]
      rfl
    · exact (Path.hasExtension_follow (holds.named route _ stands) last).mpr wanted

/-- They are in strict order, so each is there once. -/
theorem increasing_filesIn (holds : files.Holds path tree) :
    (filesIn files extensions path).Pairwise fun a b => a.key < b.key := by
  obtain ⟨routes, walks, walked⟩ := holds.walk
  have ordered : (filesIn files extensions path).Pairwise fun a b => ¬ b.key < a.key := by
    simp only [← Path.notAfter_iff]
    refine List.pairwise_mergeSort (fun a b c first second => ?_) (fun a b => ?_) _
    · rw [Path.notAfter_iff, List.not_lt] at first second ⊢
      exact List.le_trans first second
    · rw [Bool.or_eq_true, Path.notAfter_iff, Path.notAfter_iff, List.not_lt, List.not_lt]
      exact List.le_total a.key b.key
  have once : (filesIn files extensions path).Nodup := by
    rw [filesIn, (List.mergeSort_perm _ _).nodup_iff, walked]
    refine List.Nodup.filter _ (walks.once.map_on fun route here other there same => ?_)
    obtain ⟨_, stands⟩ := (walks.complete route).mp here
    obtain ⟨_, others⟩ := (walks.complete other).mp there
    exact Path.follow_inj (holds.named _ _ stands) (holds.named _ _ others) same
  refine (ordered.and once).imp_of_mem fun {a b} first second both => ?_
  obtain ⟨route, _, _, stands, -, -, rfl⟩ := (mem_filesIn holds).mp first
  obtain ⟨other, _, _, others, -, -, rfl⟩ := (mem_filesIn holds).mp second
  by_contra notBefore
  have same := List.le_antisymm (List.not_lt.mp both.1) (List.not_lt.mp notBefore)
  exact both.2 (Path.follow_eq_of_key_eq (holds.named _ _ stands) (holds.named _ _ others) same)

/-- The reports on a folder with a tree: one on each wanted file, in the order of their paths. -/
structure Complete (parser : Php.Parser) (options : ScanOptions) (path : Path) (tree : FileTree)
    (reports : List FileReport) : Prop where
  mem : ∀ report, report ∈ reports ↔ ∃ route, ReportsOn parser options path tree route report
  increasing : reports.Pairwise fun a b => a.path.key < b.path.key

theorem path_eq_ok (parser : Php.Parser) (options : ScanOptions) (holds : files.Holds path tree) :
    ∃ reports, Scan.path parser files options path = .ok reports ∧
      Complete parser options path tree reports := by
  have kind := holds.kind [] tree FileTree.find?_nil
  rw [holds.folder, if_pos rfl] at kind
  refine ⟨(filesIn files options.extensions path).map (file parser files options.qualified),
    ?_, ?_, ?_⟩
  · unfold Scan.path
    rw [show files.kind path = .ok .folder from kind]
    rfl
  · intro report
    simp only [reportsOn_iff, List.mem_map, mem_filesIn holds]
    constructor
    · rintro ⟨_, ⟨route, content, name, stands, last, wanted, rfl⟩, rfl⟩
      refine ⟨route, content, name, stands, last, wanted, ?_⟩
      rw [file, holds.read route content stands]
    · rintro ⟨route, content, name, stands, last, wanted, rfl⟩
      refine ⟨path.follow route, ⟨route, content, name, stands, last, wanted, rfl⟩, ?_⟩
      rw [file, holds.read route content stands]
  · exact List.pairwise_map.mpr (increasing_filesIn holds)

/-- Strict order leaves only one list of some reports. -/
theorem eq_of_increasing {reports others : List FileReport}
    (first : reports.Pairwise fun a b => a.path.key < b.path.key)
    (second : others.Pairwise fun a b => a.path.key < b.path.key)
    (same : ∀ report, report ∈ reports ↔ report ∈ others) : reports = others := by
  have asymm : Std.Antisymm fun a b : FileReport => a.path.key < b.path.key :=
    ⟨fun a b before behind => absurd behind (List.lt_asymm before)⟩
  have irrefl : Std.Irrefl fun a b : FileReport => a.path.key < b.path.key :=
    ⟨fun a => List.lt_irrefl a.path.key⟩
  exact first.eq_of_mem_iff second same

theorem Complete.unique {reports others : List FileReport}
    (first : Complete parser options path tree reports)
    (second : Complete parser options path tree others) : reports = others :=
  eq_of_increasing first.increasing second.increasing fun report =>
    (first.mem report).trans (second.mem report).symm

/-- A report on another file says the same of two trees that differ in one file. -/
theorem ReportsOn.beside {route there : Route} {other : FileTree} {report : FileReport}
    (same : FileTree.SameBeside route tree other) (apart : report.path ≠ path.follow route)
    (reports : ReportsOn parser options path tree there report) :
    ReportsOn parser options path other there report := by
  have elsewhere : there ≠ route := by
    rintro rfl
    cases reports <;> exact apart rfl
  cases reports with
  | read stands last wanted => exact .read ((same there elsewhere _).mp stands) last wanted
  | unread stands last wanted => exact .unread ((same there elsewhere _).mp stands) last wanted

theorem Complete.filter_eq {route : Route} {other : FileTree} {reports others : List FileReport}
    (first : Complete parser options path tree reports)
    (second : Complete parser options path other others)
    (same : FileTree.SameBeside route tree other) :
    others.filter (fun report => report.path ≠ path.follow route) =
      reports.filter (fun report => report.path ≠ path.follow route) := by
  refine eq_of_increasing (second.increasing.filter _) (first.increasing.filter _) ?_
  intro report
  rw [List.mem_filter, List.mem_filter, first.mem, second.mem, decide_eq_true_iff]
  refine and_congr_left fun apart => exists_congr fun there => ?_
  exact ⟨ReportsOn.beside same.symm apart, ReportsOn.beside same apart⟩

/-- The reports on a folder are complete, in order, and independent of each other: they are those
on the wanted files, each with what the content of its own file gives; every file system that holds
the same folder gives the same ones, in whatever order its walk comes upon the files; and what
stands at one route shows in no other report. -/
theorem path_folder (parser : Php.Parser) (options : ScanOptions) (holds : files.Holds path tree) :
    ∃ reports, Scan.path parser files options path = .ok reports ∧
      (∀ report, report ∈ reports ↔ ∃ route, ReportsOn parser options path tree route report) ∧
      reports.Pairwise (fun a b => a.path.key < b.path.key) ∧
      (∀ files' : FileSystem, files'.Holds path tree →
        Scan.path parser files' options path = .ok reports) ∧
      ∀ (files' : FileSystem) tree' route, files'.Holds path tree' →
        FileTree.SameBeside route tree tree' →
        ∃ reports', Scan.path parser files' options path = .ok reports' ∧
          reports'.filter (fun report => report.path ≠ path.follow route) =
            reports.filter (fun report => report.path ≠ path.follow route) := by
  obtain ⟨reports, scanned, complete⟩ := path_eq_ok parser options holds
  refine ⟨reports, scanned, complete.mem, complete.increasing, ?_, ?_⟩
  · intro files' holds'
    obtain ⟨others, scanned', complete'⟩ := path_eq_ok parser options holds'
    rw [scanned', complete'.unique complete]
  · intro files' tree' route holds' same
    obtain ⟨others, scanned', complete'⟩ := path_eq_ok parser options holds'
    exact ⟨others, scanned', complete.filter_eq complete' same⟩

/-- A folder with names of all kinds, listed in no order; one of its files cannot be read, and one
holds any bytes. -/
def grove (content : Bytes) : List (Bytes × FileTree) :=
  [(Text.bytes "b.tar.php".toList, .file (.ok [])),
    (Text.bytes "a-b".toList, .folder [(Text.bytes "y.PHP".toList, .file (.ok []))]),
    (Text.bytes ".php".toList, .file (.ok [])),
    (Text.bytes "a".toList, .folder [(Text.bytes "x.php".toList, .file (.ok content))]),
    (Text.bytes "php.txt".toList, .file (.ok [])),
    (Text.bytes ".hidden.php".toList, .file (.error "Permission denied (os error 13)".toList))]

def groveStore (content : Bytes) : FileStore where
  root := .folder [(Text.bytes "t".toList, .folder (grove content))]
  working := []
  userFolder := none

theorem holds_grove (content : Bytes) :
    (groveStore content).toFileSystem.Holds (Text.bytes "t".toList) (.folder (grove content)) := by
  have outermost : Files.Plain [(Text.bytes "t".toList, .folder (grove content))] :=
    Files.plain_of_names [Text.bytes "t".toList] rfl (by decide +kernel)
  have plain : Files.Plain (grove content) :=
    Files.plain_of_names (["b.tar.php", "a-b", ".php", "a", "php.txt", ".hidden.php"].map
      fun name => Text.bytes name.toList) rfl (by decide +kernel)
  have first : Files.Plain [(Text.bytes "y.PHP".toList, .file (.ok []))] :=
    Files.plain_of_names [Text.bytes "y.PHP".toList] rfl (by decide +kernel)
  have second : Files.Plain [(Text.bytes "x.php".toList, .file (.ok content))] :=
    Files.plain_of_names [Text.bytes "x.php".toList] rfl (by decide +kernel)
  have located : (groveStore content).locate (Text.bytes "t".toList) =
      .ok [Text.bytes "t".toList] := rfl
  have stands : (groveStore content).root.find? [Text.bytes "t".toList] =
      some (.folder (grove content)) := rfl
  refine FileStore.holds_toFileSystem located stands ?_ (Files.everywhere_plain.mpr ⟨plain, ?_⟩)
  · intro upper starts folder found
    rcases List.prefix_cons_iff.mp starts with rfl | ⟨rest, rfl, none_⟩
    · cases found
      exact outermost.unruled
    · obtain rfl := List.prefix_nil.mp none_
      cases found
      exact plain.unruled
  · have leaf (held : Except Text Bytes) : (FileTree.file held).Everywhere Files.Plain :=
      FileTree.everywhere_file
    have upper := Files.everywhere_plain.mpr ⟨first, List.forall_mem_singleton.mpr (leaf _)⟩
    have lower := Files.everywhere_plain.mpr ⟨second, List.forall_mem_singleton.mpr (leaf _)⟩
    simp only [grove, List.forall_mem_cons]
    exact ⟨leaf _, upper, leaf _, lower, leaf _, leaf _, nofun⟩

def grovePaths : List Path :=
  ["t/.hidden.php", "t/a/x.php", "t/a-b/y.PHP", "t/b.tar.php"].map fun path =>
    Text.bytes path.toList

/-- The walk comes upon the wanted files of the grove in another order. -/
theorem filesIn_grove : filesIn (groveStore []).toFileSystem ({} : ScanOptions).extensions
    (Text.bytes "t".toList) = grovePaths := by
  have walked : (((groveStore []).toFileSystem.walk (Text.bytes "t".toList)).filterMap
      Except.toOption).filter (fun path => (groveStore []).toFileSystem.isFile path &&
        path.hasExtension ({} : ScanOptions).extensions) =
      ["t/b.tar.php", "t/a-b/y.PHP", "t/a/x.php", "t/.hidden.php"].map fun path =>
        Text.bytes path.toList := by
    decide +kernel
  have increasing : grovePaths.Pairwise fun a b => a.key < b.key := by decide +kernel
  refine List.Perm.eq_of_pairwise (fun a b _ _ before behind => ?_)
    (increasing_filesIn (holds_grove [])) increasing ?_
  · exact absurd behind (List.lt_asymm before)
  · rw [filesIn, walked]
    exact (List.mergeSort_perm _ _).trans (by decide +kernel)

/-- Hidden files, names with two dots and extensions in capitals are read, and `a` comes before
`a-b`; when one file holds something else, the other reports stay. -/
theorem path_folder_grove : ∃ reports reports',
    Scan.path Php.parser (groveStore []).toFileSystem {} (Text.bytes "t".toList) = .ok reports ∧
    reports.map FileReport.path = grovePaths ∧
    Scan.path Php.parser (groveStore [0xE9]).toFileSystem {} (Text.bytes "t".toList) =
      .ok reports' ∧
    reports'.filter (fun report => report.path ≠ Text.bytes "t/a/x.php".toList) =
      reports.filter (fun report => report.path ≠ Text.bytes "t/a/x.php".toList) := by
  obtain ⟨reports, scanned, -, -, -, alike⟩ := path_folder Php.parser {} (holds_grove [])
  have mapped : Scan.path Php.parser (groveStore []).toFileSystem {} (Text.bytes "t".toList) =
      .ok (grovePaths.map (file Php.parser (groveStore []).toFileSystem false)) := by
    rw [← filesIn_grove]
    rfl
  obtain rfl := Except.ok.inj (scanned.symm.trans mapped)
  let route := [Text.bytes "a".toList, Text.bytes "x.php".toList]
  have stands : (FileTree.folder (grove [])).find? route = some (.file (.ok [])) := rfl
  have beside := FileTree.sameBeside_put (.ok [0xE9]) fun _ near apart =>
    FileTree.not_file_of_file stands near apart
  obtain ⟨reports', scanned', same⟩ := alike _ _ route (holds_grove [0xE9]) beside
  have there : Path.follow (Text.bytes "t".toList) route = Text.bytes "t/a/x.php".toList := by
    decide +kernel
  rw [there] at same
  exact ⟨_, reports', scanned, by simp [file, Function.comp_def], scanned', same⟩

end Scan

end DocSig
