import ThriftIdl.Check
import ThriftIdl.Proofs.Canonical.Accepted
import ThriftIdl.Proofs.Text.Utf8

/-!
# How checking ends

A file is refused if it is missing, is not UTF-8 or holds a text that is not accepted
(`CheckSettings.Refuses`). It interrupts the command if its canonical text is asked for and has an
infinite double in it, or if a container in it is held against a nesting limit that is left blank
(`CheckSettings.Interrupts`). A file is reported as failed just if it is refused
(`CheckSettings.checkFile_eq`); the command ends with a status that tells whether one failed unless a
file interrupts it (`check_status`).
-/
namespace ThriftIdl

/-! ### One file -/

/-- Whether there is nothing or a file. -/
inductive Entry.IsPlain : Entry → Prop where
  /-- There is nothing. -/
  | missing : IsPlain .missing
  /-- There is a file. -/
  | file (bytes : List UInt8) : IsPlain (.file bytes)

namespace CheckSettings

variable {settings : CheckSettings} {path : Path} {entry : Entry}

/-- What the text of a file is read as. -/
def reading (settings : CheckSettings) (text : List Char) : Except Rejected (Document Position) :=
  settings.manner.read (settings.limit.getD 0) (Text.unixLines text)

/-- A file is refused. -/
inductive Refuses (settings : CheckSettings) : Entry → Prop where
  /-- It is missing. -/
  | missing : Refuses settings .missing
  /-- It is not UTF-8. -/
  | notUtf8 {bytes : List UInt8}
      (never : ∀ text : List Char, bytes ≠ text.flatMap String.utf8EncodeChar) :
      Refuses settings (.file bytes)
  /-- Its text is not accepted. -/
  | rejected {bytes : List UInt8} {text : List Char} {reason : Rejected}
      (code : bytes = text.flatMap String.utf8EncodeChar)
      (read : settings.reading text = .error reason) : Refuses settings (.file bytes)

/-- A file interrupts the command. -/
inductive Interrupts (settings : CheckSettings) : Entry → Prop where
  /-- Its canonical text is asked for, but an infinite double has none. -/
  | unprintable {bytes : List UInt8} {text : List Char} {document : Document Position}
      (code : bytes = text.flatMap String.utf8EncodeChar) (asked : settings.format = true)
      (read : settings.reading text = .ok document)
      (infinite : ∃ double ∈ document.doubles, double.IsInfinite) :
      Interrupts settings (.file bytes)
  /-- The nesting limit is blank, and there is a container to hold against it. -/
  | limitBlank {bytes : List UInt8} {text : List Char} {reason : Rejected}
      (code : bytes = text.flatMap String.utf8EncodeChar) (blank : settings.limit = none)
      (read : settings.reading text = .error reason) (nested : reason.isNesting = true) :
      Interrupts settings (.file bytes)

section File

variable {bytes : List UInt8} {text : List Char}

/-- A file with a text is refused just if the text is not accepted. -/
theorem refuses_file_iff (decoded : Text.decode bytes = .ok text) :
    settings.Refuses (.file bytes) ↔ ∃ reason, settings.reading text = .error reason := by
  have code := Text.decode_eq_ok_iff.1 decoded
  constructor
  · rintro (_ | never | ⟨code', read⟩)
    · exact absurd code (never text)
    · obtain rfl := Except.ok.inj ((Text.decode_eq_ok_iff.2 code').symm.trans decoded)
      exact ⟨_, read⟩
  · rintro ⟨reason, read⟩
    exact .rejected code read

/-- What interrupts the command in a file with a text. -/
theorem interrupts_file_iff (decoded : Text.decode bytes = .ok text) :
    settings.Interrupts (.file bytes) ↔
      (settings.format = true ∧ ∃ document, settings.reading text = .ok document ∧
        ∃ double ∈ document.doubles, double.IsInfinite) ∨
      settings.limit = none ∧ ∃ reason, settings.reading text = .error reason ∧
        reason.isNesting = true := by
  have code := Text.decode_eq_ok_iff.1 decoded
  constructor
  · rintro (⟨code', asked, read, infinite⟩ | ⟨code', blank, read, nested⟩)
    · obtain rfl := Except.ok.inj ((Text.decode_eq_ok_iff.2 code').symm.trans decoded)
      exact .inl ⟨asked, _, read, infinite⟩
    · obtain rfl := Except.ok.inj ((Text.decode_eq_ok_iff.2 code').symm.trans decoded)
      exact .inr ⟨blank, _, read, nested⟩
  · rintro (⟨asked, document, read, infinite⟩ | ⟨blank, reason, read, nested⟩)
    · exact .unprintable code asked read infinite
    · exact .limitBlank code blank read nested

/-- A document that is accepted has a canonical text unless one of its doubles is infinite. -/
theorem exists_idl_eq_error_iff_of_reading {document : Document Position}
    (read : settings.reading text = .ok document) :
    (∃ reason, document.idl = .error reason) ↔ ∃ double ∈ document.doubles, double.IsInfinite := by
  obtain ⟨_, _, lexemes, rest, definitions, lexes, spelled, same⟩ :=
    Manner.exists_spelled_of_read read
  have formed : document.WellFormed (· ≠ .nan) := by
    rw [same, Document.wellFormed_map]
    exact spelled.wellFormed lexes
  exact formed.exists_idl_eq_error_iff

/-- What is asked for of a document is printed unless its canonical text is asked for and it has
none. -/
theorem printed_eq_error_iff (settings : CheckSettings) (document : Document Position) :
    (∃ reason, settings.printed document = .error reason) ↔
      settings.format = true ∧ ∃ reason, document.idl = .error reason := by
  unfold printed
  cases settings.format with
  | false => simp [bind, Except.bind, pure, Except.pure]
  | true => cases document.idl <;> simp [bind, Except.bind, pure, Except.pure]

/-- A text that is accepted passes, or interrupts the command. -/
theorem checkSource_of_reading_eq_ok {document : Document Position} (path : Path)
    (read : settings.reading text = .ok document) :
    (settings.format = true ∧ ∃ double ∈ document.doubles, double.IsInfinite) ∧
        (∃ reason, settings.checkSource path (Text.unixLines text) = .error reason) ∨
      ¬ (settings.format = true ∧ ∃ double ∈ document.doubles, double.IsInfinite) ∧
        ∃ report, settings.checkSource path (Text.unixLines text) = .ok report ∧
          report.failed = false := by
  rw [← exists_idl_eq_error_iff_of_reading read, ← printed_eq_error_iff]
  rw [reading] at read
  simp only [checkSource, read]
  cases printed : settings.printed document with
  | error reason => exact .inl ⟨⟨reason, rfl⟩, .unprintable reason, rfl⟩
  | ok output =>
    refine .inr ⟨?_, _, rfl, rfl⟩
    rintro ⟨reason, same⟩
    cases same

/-- A text that is not accepted fails, or interrupts the command. -/
theorem checkSource_of_reading_eq_error {reason : Rejected} (path : Path)
    (read : settings.reading text = .error reason) :
    (settings.limit = none ∧ reason.isNesting = true) ∧
        (∃ reason, settings.checkSource path (Text.unixLines text) = .error reason) ∨
      ¬ (settings.limit = none ∧ reason.isNesting = true) ∧
        ∃ report, settings.checkSource path (Text.unixLines text) = .ok report ∧
          report.failed = true := by
  rw [reading] at read
  simp only [checkSource, read, Bool.and_eq_true, Option.isNone_iff_eq_none]
  by_cases blank : settings.limit = none ∧ reason.isNesting = true
  · rw [if_pos blank]
    exact .inl ⟨blank, _, rfl⟩
  · rw [if_neg blank]
    exact .inr ⟨blank, _, rfl, rfl⟩

end File

/-- A file that interrupts the command is not reported, and every other is reported as failed just if
it is refused. -/
theorem checkFile_eq (settings : CheckSettings) (path : Path) (plain : entry.IsPlain) :
    settings.Interrupts entry ∧ (∃ reason, settings.checkFile path entry = .error reason) ∨
      ¬ settings.Interrupts entry ∧ ∃ report, settings.checkFile path entry = .ok report ∧
        (report.failed = true ↔ settings.Refuses entry) := by
  cases plain with
  | missing =>
    refine .inr ⟨?_, _, rfl, iff_of_true rfl .missing⟩
    rintro ⟨⟩
  | file bytes =>
    cases decoded : Text.decode bytes with
    | error fault =>
      have never : ∀ text : List Char, bytes ≠ text.flatMap String.utf8EncodeChar := by
        intro text code
        rw [Text.decode_eq_ok_iff.2 code] at decoded
        cases decoded
      have checked : settings.checkFile path (.file bytes) =
          .ok ⟨true, failureLine path none ("not UTF-8 text (" ++ fault.message ++ ")"), []⟩ := by
        simp only [checkFile, Entry.source, decoded]
      refine .inr ⟨?_, _, checked, iff_of_true rfl (.notUtf8 never)⟩
      rintro (⟨code, -⟩ | ⟨code, -⟩) <;> exact never _ code
    | ok text =>
      have checked : settings.checkFile path (.file bytes) =
          settings.checkSource path (Text.unixLines text) := by
        simp only [checkFile, Entry.source, decoded]
      rw [checked, interrupts_file_iff decoded, refuses_file_iff decoded]
      cases read : settings.reading text with
      | ok document =>
        simpa [read] using checkSource_of_reading_eq_ok path read
      | error reason =>
        simpa [read] using checkSource_of_reading_eq_error path read

end CheckSettings

/-! ### All files -/

/-- What cannot be done for a member of a list cannot be done for all of them. -/
theorem exists_mapM_eq_error {α β ε : Type} (act : α → Except ε β) {things : List α} {thing : α}
    (mem : thing ∈ things) {reason : ε} (fails : act thing = .error reason) :
    ∃ reason, things.mapM act = .error reason := by
  cases done : things.mapM act with
  | error reason => exact ⟨reason, rfl⟩
  | ok results =>
    obtain ⟨result, succeeds⟩ := exists_of_mapM_eq_ok done thing mem
    rw [fails] at succeeds
    cases succeeds

/-- A command fails just if one of its files fails. -/
theorem status_summary (reports : List FileReport) :
    ((summary reports).status = 0 ∨ (summary reports).status = 1) ∧
      ((summary reports).status = 1 ↔ ∃ report ∈ reports, report.failed = true) := by
  simp only [summary, ← List.countP_pos_iff]
  split <;> simp_all

/-- Something in a list of pairs has one property just if its partner has another. -/
theorem exists_mem_iff_of_forall₂ {α β : Type} {relates : α → β → Prop} {holds : α → Prop}
    {holds' : β → Prop} {things : List α} {partners : List β}
    (same : ∀ thing partner, relates thing partner → (holds thing ↔ holds' partner))
    (pairs : List.Forall₂ relates things partners) :
    (∃ thing ∈ things, holds thing) ↔ ∃ partner ∈ partners, holds' partner := by
  induction pairs with
  | nil => simp
  | cons first _ ih => simp only [List.exists_mem_cons_iff, same _ _ first, ih]

section All

variable (look : Path → Entry) {arguments : List String} {settings : CheckSettings}
  {names : List (List Char)}

/-- A command with names checks each of them. -/
theorem check_of_start (started : checkForm.start arguments = .ok (settings, names))
    (some : names ≠ []) :
    check look arguments = (names.mapM fun name =>
      settings.checkFile (Path.ofText name) (look (Path.ofText name))).map summary := by
  rw [check, started]
  cases names with
  | nil => exact absurd rfl some
  | cons name names => rfl

/-- How checking ends. If the options and names are accepted and every name leads to nothing or to a
file, the command ends with the status nought or one unless a file interrupts it: every file is
checked, and the status is one just if there is none or one of them is refused. A file that interrupts
the command leaves it without a status. -/
theorem check_status (started : checkForm.start arguments = .ok (settings, names))
    (plain : ∀ name ∈ names, (look (Path.ofText name)).IsPlain) :
    ((∀ name ∈ names, ¬ settings.Interrupts (look (Path.ofText name))) →
      ∃ result, check look arguments = .ok result ∧
        (result.status = 0 ∨ result.status = 1) ∧
        (result.status = 1 ↔
          names = [] ∨ ∃ name ∈ names, settings.Refuses (look (Path.ofText name))) ∧
        (names ≠ [] → ∃ reports, result = summary reports ∧
          List.Forall₂ (fun report name => settings.checkFile (Path.ofText name)
            (look (Path.ofText name)) = .ok report) reports names)) ∧
    ((∃ name ∈ names, settings.Interrupts (look (Path.ofText name))) →
      ∃ reason, check look arguments = .error reason) := by
  constructor
  · intro goes
    by_cases none : names = []
    · subst none
      refine ⟨⟨1, checkForm.help.toList, []⟩, by rw [check, started], .inr rfl, ?_, ?_⟩
      · exact iff_of_true rfl (.inl rfl)
      · exact fun some => absurd rfl some
    -- What checking a file gives is said twice: for running over all files, and to be kept about each.
    have each : ∀ name ∈ names, ∃ report,
        settings.checkFile (Path.ofText name) (look (Path.ofText name)) = .ok report ∧
          settings.checkFile (Path.ofText name) (look (Path.ofText name)) = .ok report ∧
            (report.failed = true ↔ settings.Refuses (look (Path.ofText name))) := by
      intro name mem
      obtain ⟨interrupts, -⟩ | ⟨-, report, checked, fails⟩ :=
        settings.checkFile_eq (Path.ofText name) (plain name mem)
      · exact absurd interrupts (goes name mem)
      · exact ⟨report, checked, checked, fails⟩
    obtain ⟨reports, checked, pairs⟩ := exists_mapM_eq_ok each
    obtain ⟨status, failed⟩ := status_summary reports
    refine ⟨summary reports, ?_, status, ?_, fun _ => ⟨reports, rfl, pairs.imp fun _ _ => And.left⟩⟩
    · rw [check_of_start look started none, checked]
      rfl
    · rw [failed, exists_mem_iff_of_forall₂ (fun _ _ both => both.2) pairs]
      exact (or_iff_right none).symm
  · rintro ⟨name, mem, interrupts⟩
    have some : names ≠ [] := List.ne_nil_of_mem mem
    obtain ⟨-, reason, stops⟩ | ⟨goes, -⟩ :=
      settings.checkFile_eq (Path.ofText name) (plain name mem)
    · obtain ⟨reason, all⟩ := exists_mapM_eq_error
        (fun name => settings.checkFile (Path.ofText name) (look (Path.ofText name))) mem stops
      refine ⟨reason, ?_⟩
      rw [check_of_start look started some, all]
      rfl
    · exact absurd interrupts goes

/-- A file that is checked does not interrupt the command. -/
theorem CheckSettings.not_interrupts_of_checkFile {path : Path} {entry : Entry} {report : FileReport}
    (plain : entry.IsPlain) (checked : settings.checkFile path entry = .ok report) :
    ¬ settings.Interrupts entry := by
  obtain ⟨-, reason, stops⟩ | ⟨goes, -⟩ := settings.checkFile_eq path plain
  · rw [checked] at stops
    cases stops
  · exact goes

/-- Canonical texts are asked for. One file is read and printed and another one is missing, so that the
status is one. A constant beyond all finite doubles in a third file is accepted, but leaves the command
without a status. -/
theorem check_status_formatted :
    let look : Path → Entry := fun path =>
      if path.text = "a.thrift".toList then
        .file ("const double X = .5\n".toList.flatMap String.utf8EncodeChar)
      else if path.text = "c.thrift".toList then
        .file ("const double X = 1e999\n".toList.flatMap String.utf8EncodeChar)
      else .missing
    let settings : CheckSettings := ⟨false, true, false, some 64, false⟩
    let names := ["a.thrift".toList, "b.thrift".toList]
    let names' := ["a.thrift".toList, "c.thrift".toList]
    checkForm.start ["--format", "a.thrift", "b.thrift"] = .ok (settings, names) ∧
      (∀ name ∈ names, (look (Path.ofText name)).IsPlain) ∧
      (∃ result, check look ["--format", "a.thrift", "b.thrift"] = .ok result ∧ result.status = 1 ∧
        result.output =
          "const double X = 0.5\nb.thrift: error: file not found\n\n1 of 2 file(s) failed\n".toList) ∧
      checkForm.start ["--format", "a.thrift", "c.thrift"] = .ok (settings, names') ∧
      (∀ name ∈ names', (look (Path.ofText name)).IsPlain) ∧
      ∃ reason, check look ["--format", "a.thrift", "c.thrift"] = .error reason := by
  intro look settings names names'
  have started : checkForm.start ["--format", "a.thrift", "b.thrift"] = .ok (settings, names) := by
    decide +kernel
  have started' : checkForm.start ["--format", "a.thrift", "c.thrift"] = .ok (settings, names') := by
    decide +kernel
  have absent : look (Path.ofText "b.thrift".toList) = .missing :=
    (if_neg (by decide +kernel)).trans (if_neg (by decide +kernel))
  have plain (path : Path) : (look path).IsPlain := by
    simp only [look]
    split
    · exact .file _
    · split
      · exact .file _
      · exact .missing
  have printed : (settings.checkFile (Path.ofText "a.thrift".toList)
      (look (Path.ofText "a.thrift".toList))).isOk := by decide +kernel
  have goes : ∀ name ∈ names, ¬ settings.Interrupts (look (Path.ofText name)) := by
    obtain ⟨report, checked⟩ := exists_eq_ok_of_isOk printed
    simp only [names, List.forall_mem_cons]
    refine ⟨CheckSettings.not_interrupts_of_checkFile (plain _) checked, ?_, nofun⟩
    rw [absent]
    nofun
  obtain ⟨result, checked, -, status, -⟩ :=
    (check_status look started fun _ _ => plain _).1 goes
  have refused : settings.Refuses (look (Path.ofText "b.thrift".toList)) := absent ▸ .missing
  have failed : result.status = 1 := status.2 (.inr ⟨_, by simp [names], refused⟩)
  have output : check look ["--format", "a.thrift", "b.thrift"] = .ok ⟨1,
      "const double X = 0.5\nb.thrift: error: file not found\n\n1 of 2 file(s) failed\n".toList, []⟩ := by
    decide +kernel
  have told := congrArg CommandResult.output (Except.ok.inj (checked.symm.trans output))
  -- The third file is read, so that it interrupts the command only for its constant.
  have interrupts : settings.Interrupts (look (Path.ofText "c.thrift".toList)) := by
    obtain ⟨interrupts, -⟩ | ⟨-, report, passes, -⟩ :=
      settings.checkFile_eq (Path.ofText "c.thrift".toList) (plain (Path.ofText "c.thrift".toList))
    · exact interrupts
    · have stops : (settings.checkFile (Path.ofText "c.thrift".toList)
          (look (Path.ofText "c.thrift".toList))).isOk = false := by decide +kernel
      rw [passes] at stops
      cases stops
  exact ⟨started, fun _ _ => plain _, ⟨result, checked, failed, told⟩, started', fun _ _ => plain _,
    (check_status look started' fun _ _ => plain _).2 ⟨_, by simp [names'], interrupts⟩⟩

end All
end ThriftIdl
