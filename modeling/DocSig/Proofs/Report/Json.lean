import DocSig.Proofs.Text.Scan
import DocSig.Report.Basic
import Mathlib.Data.List.Forall2

/-!
What a JSON text tells.

A writer tells a part of its values if no text it writes, whatever stands behind, can come from two
values that differ in this part, and the end of the text shows too (`Tells`). Escaped characters,
strings, arrays and objects are followed once each; so a JSON report holds the file, the name and
the types of every signature that was found, in order, and nothing of the reports without any.
-/

set_option autoImplicit false

namespace DocSig

namespace Json

variable {α β : Type}

def digitValue (digit : Char) : Nat :=
  if digit.isDigit then digit.toNat - '0'.toNat else digit.toNat - 'a'.toNat + 10

/-- The character that a letter or a mark behind a backslash stands for. -/
def unmarked (mark : Char) : Char :=
  if mark = 'b' then '\x08'
  else if mark = 't' then '\t'
  else if mark = 'n' then '\n'
  else if mark = 'f' then '\x0c'
  else if mark = 'r' then '\r'
  else mark

/-- The first character of the inside of a string, and the rest. -/
def unescape : Text → Option (Char × Text)
  | '\\' :: 'u' :: '0' :: '0' :: high :: low :: rest =>
    some (Char.ofNat (16 * digitValue high + digitValue low), rest)
  | '\\' :: mark :: rest => some (unmarked mark, rest)
  | c :: rest => some (c, rest)
  | [] => none

theorem digitValue_digitChar : ∀ n < 16, digitValue (Nat.digitChar n) = n := by
  decide

theorem unescape_plain {c : Char} (plain : c ≠ '\\') (rest : Text) :
    unescape (c :: rest) = some (c, rest) := by
  unfold unescape
  split
  · next same => exact absurd (List.cons.inj same).1 plain
  · next same => exact absurd (List.cons.inj same).1 plain
  · next same => rw [(List.cons.inj same).1, (List.cons.inj same).2]
  · next same => cases same

theorem unescape_escapedByNumber {c : Char} (control : c.toNat < 0x20) (rest : Text) :
    unescape (escapedByNumber c ++ rest) = some (c, rest) := by
  have high : digitValue (Nat.digitChar (c.toNat / 16)) = c.toNat / 16 :=
    digitValue_digitChar _ (by omega)
  have low : digitValue (Nat.digitChar (c.toNat % 16)) = c.toNat % 16 :=
    digitValue_digitChar _ (by omega)
  have code : 16 * (c.toNat / 16) + c.toNat % 16 = c.toNat := Nat.div_add_mod c.toNat 16
  change some (Char.ofNat (16 * digitValue _ + digitValue _), rest) = some (c, rest)
  rw [high, low, code, Char.ofNat_toNat]

theorem unescape_escaped (c : Char) (rest : Text) :
    unescape (escaped c ++ rest) = some (c, rest) := by
  unfold escaped
  split_ifs with quote backslash back tab feed form return_ control
  · rw [quote]; rfl
  · rw [backslash]; rfl
  · rw [back]; rfl
  · rw [tab]; rfl
  · rw [feed]; rfl
  · rw [form]; rfl
  · rw [return_]; rfl
  · exact unescape_escapedByNumber control rest
  · exact unescape_plain backslash rest

/-- A quote that stands unescaped is none of the characters inside a string. -/
theorem quote_ne_escaped (c : Char) (s rest : Text) : '"' :: s ≠ escaped c ++ rest := by
  intro same
  have decoded := congrArg unescape same
  rw [unescape_plain (by decide), unescape_escaped] at decoded
  obtain ⟨rfl, rfl⟩ := Prod.mk.inj (Option.some.inj decoded)
  cases same

/-- Whatever stands behind, two values with one text are alike, and the text ends at one place. -/
def Tells (write : Writer α) (alike : α → α → Prop) : Prop :=
  ∀ level x y s t, write level x ++ s = write level y ++ t → alike x y ∧ s = t

variable {write item : Writer α} {alike : α → α → Prop}

theorem Tells.imp {alike' : α → α → Prop} (tells : Tells write alike)
    (weaker : ∀ x y, alike x y → alike' x y) : Tells write alike' := by
  intro level x y s t same
  obtain ⟨values, rests⟩ := tells level x y s t same
  exact ⟨weaker x y values, rests⟩

theorem Tells.on (tells : Tells write alike) (part : β → α) :
    Tells (Json.on part write) fun x y => alike (part x) (part y) :=
  fun level x y s t same => tells level (part x) (part y) s t same

/-- A key is the same for all values, so it tells nothing and hides nothing. -/
theorem Tells.field (tells : Tells write alike) (key : Text) :
    Tells (Json.field key write) alike := by
  intro level x y s t same
  simp only [Json.field, List.append_assoc, List.append_cancel_left_eq] at same
  exact tells level x y s t same

theorem tells_string : Tells string Eq := by
  intro level x y s t same
  have inside : x.flatMap escaped ++ '"' :: s = y.flatMap escaped ++ '"' :: t := by
    simpa [string] using same
  clear same
  induction x generalizing y with
  | nil =>
      cases y with
      | nil => exact ⟨rfl, (List.cons.inj inside).2⟩
      | cons d y =>
          rw [List.flatMap_cons, List.append_assoc] at inside
          exact absurd inside (quote_ne_escaped d s _)
  | cons c x ih =>
      cases y with
      | nil =>
          rw [List.flatMap_cons, List.append_assoc] at inside
          exact absurd inside.symm (quote_ne_escaped c t _)
      | cons d y =>
          rw [List.flatMap_cons, List.flatMap_cons, List.append_assoc, List.append_assoc] at inside
          have decoded := congrArg unescape inside
          rw [unescape_escaped, unescape_escaped] at decoded
          obtain ⟨rfl, tails⟩ := Prod.mk.inj (Option.some.inj decoded)
          obtain ⟨rfl, rests⟩ := ih y tails
          exact ⟨rfl, rests⟩

/-- Values behind the first one of an array, each with its comma and on its line. -/
def moreValues (item : Writer α) (level : Nat) (values : List α) : Text :=
  values.flatMap fun value => ',' :: (newLine level ++ item level value)

theorem array_cons (level : Nat) (value : α) (values : List α) :
    array item level (value :: values) =
      '[' :: (newLine (level + 1) ++ item (level + 1) value ++
        moreValues item (level + 1) values ++ newLine level ++ [']']) := by
  simp [array, itemLines, Text.join_cons, moreValues, List.flatMap_map]

/-- A comma shows that the array goes on, the line feed behind its last value that it does not. -/
theorem moreValues_cancel (tells : Tells item Eq) (level : Nat) {values others : List α}
    {s t : Text}
    (same : moreValues item level values ++ '\n' :: s = moreValues item level others ++ '\n' :: t) :
    values = others ∧ s = t := by
  induction values generalizing others with
  | nil =>
      cases others with
      | nil => exact ⟨rfl, (List.cons.inj same).2⟩
      | cons y others => exact absurd (List.cons.inj same).1 (by decide)
  | cons x values ih =>
      cases others with
      | nil => exact absurd (List.cons.inj same).1 (by decide)
      | cons y others =>
          simp only [moreValues, List.flatMap_cons, List.cons_append, List.append_assoc,
            List.cons.injEq, true_and, List.append_cancel_left_eq] at same
          obtain ⟨rfl, tails⟩ := tells level x y _ _ same
          obtain ⟨rfl, rests⟩ := ih tails
          exact ⟨rfl, rests⟩

theorem tells_array (tells : Tells item Eq) : Tells (array item) Eq := by
  intro level values others s t same
  cases values with
  | nil =>
      cases others with
      | nil => exact ⟨rfl, by simpa [array] using same⟩
      | cons y others =>
          rw [array_cons] at same
          exact absurd (List.cons.inj (List.cons.inj same).2).1 (by decide)
  | cons x values =>
      cases others with
      | nil =>
          rw [array_cons] at same
          exact absurd (List.cons.inj (List.cons.inj same).2).1 (by decide)
      | cons y others =>
          simp only [array_cons, List.cons_append, List.append_assoc, List.cons.injEq, true_and,
            List.append_cancel_left_eq] at same
          obtain ⟨rfl, tails⟩ := tells (level + 1) x y _ _ same
          obtain ⟨rfl, ends⟩ := moreValues_cancel tells (level + 1) tails
          refine ⟨rfl, ?_⟩
          simpa using ends

def moreFields (fields : List (Writer α)) (level : Nat) (value : α) : Text :=
  fields.flatMap fun write => ',' :: (newLine level ++ write level value)

theorem object_cons (first : Writer α) (fields : List (Writer α)) (level : Nat) (value : α) :
    object (first :: fields) level value =
      '\x7b' :: (newLine (level + 1) ++ first (level + 1) value ++
        moreFields fields (level + 1) value ++ newLine level ++ ['\x7d']) := by
  simp [object, itemLines, Text.join_cons, moreFields, List.flatMap_map]

theorem moreFields_cancel {fields : List (Writer α)} {alikes : List (α → α → Prop)}
    (tell : List.Forall₂ Tells fields alikes) (level : Nat) {x y : α} {s t : Text}
    (same : moreFields fields level x ++ s = moreFields fields level y ++ t) :
    (∀ alike ∈ alikes, alike x y) ∧ s = t := by
  induction tell with
  | nil => exact ⟨nofun, same⟩
  | @cons write alike fields alikes first _ ih =>
      simp only [moreFields, List.flatMap_cons, List.cons_append, List.append_assoc,
        List.cons.injEq, true_and, List.append_cancel_left_eq] at same
      obtain ⟨here, tails⟩ := first level x y _ _ same
      obtain ⟨later, rests⟩ := ih tails
      exact ⟨List.forall_mem_cons.mpr ⟨here, later⟩, rests⟩

/-- All objects of a writer have the same fields, so an object tells what its fields do. -/
theorem tells_object {first : Writer α} {fields : List (Writer α)} {alikes : List (α → α → Prop)}
    (leads : Tells first alike) (tell : List.Forall₂ Tells fields alikes) :
    Tells (object (first :: fields)) fun x y => ∀ each ∈ alike :: alikes, each x y := by
  intro level x y s t same
  simp only [object_cons, List.cons_append, List.append_assoc, List.cons.injEq, true_and,
    List.append_cancel_left_eq] at same
  obtain ⟨here, tails⟩ := leads (level + 1) x y _ _ same
  obtain ⟨later, ends⟩ := moreFields_cancel tell (level + 1) tails
  refine ⟨List.forall_mem_cons.mpr ⟨here, later⟩, ?_⟩
  simpa using ends

end Json

namespace Report

open Json

/-- A set of types is told by its members in order. -/
theorem tells_typesJson : Tells typesJson Eq := by
  refine ((tells_array tells_string).on TypeSet.texts).imp fun set other same => ?_
  exact TypeSet.ext_mem fun s => by rw [TypeSet.mem_def, TypeSet.mem_def, same]

theorem tells_foundJson : Tells foundJson Eq := by
  have file := (tells_string.on Found.path).field "file".toList
  have name := (tells_string.on fun item : Found => item.signature.name).field "name".toList
  have params := ((tells_array tells_typesJson).on
    fun item : Found => item.signature.parameters).field "params".toList
  have returns := (tells_typesJson.on fun item : Found => item.signature.results).field
    "returns".toList
  refine (tells_object file (.cons name (.cons params (.cons returns .nil)))).imp ?_
  rintro ⟨path, name, parameters, results⟩ ⟨path', name', parameters', results'⟩ alike
  simp only [List.forall_mem_cons, List.not_mem_nil, false_implies, implies_true, and_true] at alike
  obtain ⟨rfl, rfl, rfl, rfl⟩ := alike
  rfl

/-- The file, the name, the parameters and the results of each signature that was found, report by
report. -/
def records (reports : List Report) : List (Text × Text × List TypeSet × TypeSet) :=
  reports.flatMap fun report =>
    (report.outcome.toOption.elim [] Extraction.signatures).map fun signature =>
      (report.path, signature.name, signature.parameters, signature.results)

theorem records_eq (reports : List Report) :
    records reports = (allFound reports).map fun item =>
      (item.path, item.signature.name, item.signature.parameters, item.signature.results) := by
  rw [allFound, List.map_flatMap]
  refine List.flatMap_congr fun report _ => ?_
  unfold found
  split
  · next extraction given => simp [given, Except.toOption]
  · next fault failed => simp [failed, Except.toOption]

theorem records_eq_iff {reports others : List Report} :
    records reports = records others ↔ allFound reports = allFound others := by
  rw [records_eq, records_eq]
  refine List.map_injective_iff.mpr ?_ |>.eq_iff
  rintro ⟨path, name, parameters, results⟩ ⟨path', name', parameters', results'⟩ same
  simp only [Prod.mk.injEq] at same
  obtain ⟨rfl, rfl, rfl, rfl⟩ := same
  rfl

/-- JSON texts are equal exactly if the records that they hold are, and a report that failed or
found nothing leaves no trace, wherever it stands. -/
theorem render_json_eq_iff :
    (∀ reports others, render .json reports = render .json others ↔
      records reports = records others) ∧
    ∀ before report behind,
      (∀ extraction, report.outcome = .ok extraction → extraction.signatures = []) →
        render .json (before ++ report :: behind) = render .json (before ++ behind) := by
  have told : ∀ reports others, render .json reports = render .json others ↔
      records reports = records others := by
    intro reports others
    rw [records_eq_iff]
    refine ⟨fun same => ?_, fun same => congrArg document same⟩
    exact (tells_array tells_foundJson 0 _ _ _ _ same).1
  refine ⟨told, fun before report behind empty => ?_⟩
  have nothing : report.outcome.toOption.elim [] Extraction.signatures = [] := by
    cases given : report.outcome with
    | error fault => rfl
    | ok extraction => exact empty extraction given
  rw [told]
  simp [records, nothing]

/-- A signature whose name and types have marks to escape, in a file of such a name. -/
def markedReport : Report :=
  ⟨"a\"b.php".toList, .ok ⟨[⟨"App\\f".toList,
    [TypeSet.ofList ["'\x01\n'".toList, "\u00e9".toList], TypeSet.empty], TypeSet.empty⟩], [], []⟩⟩

example : render .json [markedReport] = ("[\n  \x7b\n    \"file\": \"a\\\"b.php\",\n" ++
    "    \"name\": \"App\\\\f\",\n    \"params\": [\n" ++
    "      [\n        \"'\\u0001\\n'\",\n        \"\u00e9\"\n      ],\n      []\n    ],\n" ++
    "    \"returns\": []\n  \x7d\n]\n").toList := by
  decide +kernel

/-- Failed and empty reports leave no trace between others, and an escaped mark is not the mark
itself. -/
theorem render_json_markedReport :
    render .json [markedReport, ⟨"bad.php".toList, .error (.noProgram [])⟩,
        ⟨"c.php".toList, .ok ⟨[], [], []⟩⟩, markedReport] =
      render .json [markedReport, markedReport] ∧
      render .json [markedReport] ≠
        render .json [⟨"a\\\"b.php".toList, markedReport.outcome⟩] := by
  obtain ⟨told, untraced⟩ := render_json_eq_iff
  refine ⟨?_, ?_⟩
  · have failed := untraced [markedReport] ⟨"bad.php".toList, .error (.noProgram [])⟩
      [⟨"c.php".toList, .ok ⟨[], [], []⟩⟩, markedReport] nofun
    have empty := untraced [markedReport] ⟨"c.php".toList, .ok ⟨[], [], []⟩⟩ [markedReport] (by
      intro extraction given
      cases given
      rfl)
    exact failed.trans empty
  · rw [Ne, told]
    decide

end Report

end DocSig
