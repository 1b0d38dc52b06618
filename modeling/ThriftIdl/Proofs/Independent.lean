import ThriftIdl.Proofs.Check
import ThriftIdl.Proofs.Options
import ThriftIdl.Proofs.Reader.Productions
import ThriftIdl.Proofs.Token.Tidy

/-!
# Files are checked independently

Whatever a file fails for, one line is printed about it: all that is said in it about the text has one line
(`Raised.oneLine_report`, `Refusal.oneLine_message`). Several files are checked as each of them would be
alone, with a count of those that failed at the end (`check_each`).
-/
namespace ThriftIdl

/-! ### One line for each failure -/

section Messages

variable {limit : Int} {source : List Char} {path : Path}

/-- What is said where reading stopped has one line if what was noted before has. -/
theorem Diagnosis.oneLine_ofRemainder {noted : Option Fault} (plain : Fault.NotedPlain noted)
    (offset : Int) :
    OneLine (ofRemainder source limit offset (noted.map (ofFault source limit 0))).message := by
  have unexpected (found : List Char) : OneLine (Reason.message limit (.definitionExpected found)) :=
    @Reason.Plain.oneLine_message (.definitionExpected found) trivial limit
  cases noted with
  | none => exact unexpected _
  | some best =>
    rw [Option.map_some, ofRemainder]
    split
    · exact (plain best rfl).oneLine_message limit
    · exact unexpected _

/-- What is said of a plain fault has one line. -/
theorem Raised.oneLine_ofFault {fault : Fault} (plain : fault.reason.Plain) (start : Int) :
    OneLine (ofFault source limit start fault).report.2 := by
  unfold ofFault
  split
  next count _ => exact oneLine_digitsMessage count
  next => exact plain.oneLine_message limit

/-- What is said of a text that is refused strictly has one line. -/
theorem Raised.oneLine_report {raised : Raised} (refused : readStrictly limit source = .error raised) :
    OneLine raised.report.2 := by
  have inside := Reader.confined_document limit.toNat (List.suffix_refl source)
  rw [readStrictly, readDefinitions] at refused
  generalize Reader.document limit.toNat source = outcome at inside refused
  cases inside with
  | fail _ faults =>
    rw [← Except.error.inj refused]
    exact oneLine_ofFault faults.head 0
  | @ok document rest noted _ _ _ plain =>
    have skipped : (Lexical.skipSeparator rest).Inside false rest fun _ => True :=
      Reader.bare_skipSeparator rest (List.suffix_refl rest)
    dsimp only at refused
    generalize Lexical.skipSeparator rest = outcome at skipped refused
    cases skipped with
    | fail _ faults =>
      rw [← Except.error.inj refused]
      exact oneLine_ofFault faults.head 0
    | ok _ _ _ plain' =>
      dsimp only at refused
      split at refused
      · cases refused
      · rw [← Except.error.inj refused]
        exact Diagnosis.oneLine_ofRemainder (plain.best plain') _

/-- The line about a text that is not accepted as a whole says one thing. -/
theorem Rejected.exists_line {manner : Manner} {rejected : Rejected} (whole : manner ≠ .soft)
    (refused : manner.read limit source = .error rejected) :
    ∃ position message, OneLine message ∧ rejected.line path = failureLine path position message := by
  cases manner with
  | soft => exact absurd rfl whole
  | strict =>
    cases read : readStrictly limit source with
    | ok => simp [Manner.read, read, Except.mapError] at refused
    | error raised =>
      obtain rfl : Rejected.raised raised = rejected := by
        simpa [Manner.read, read, Except.mapError] using refused
      exact ⟨raised.report.1, raised.report.2, Raised.oneLine_report read, rfl⟩
  | tokens =>
    cases read : readGrammatically limit source with
    | ok => simp [Manner.read, read, Except.mapError] at refused
    | error refusal =>
      obtain rfl : Rejected.refusal refusal = rejected := by
        simpa [Manner.read, read, Except.mapError] using refused
      have oneLine := Refusal.oneLine_message read
      cases refusal with
      | «at» position kind message => exact ⟨some position, message, oneLine, rfl⟩
      | invalid reason limit => exact ⟨none, reason.message limit, oneLine, rfl⟩

/-- One line is printed about a file that fails, and nothing else. -/
theorem CheckSettings.exists_failureLine {settings : CheckSettings} {entry : Entry} {report : FileReport}
    (checked : settings.checkFile path entry = .ok report) (failed : report.failed = true) :
    ∃ position message, OneLine message ∧ report.output = failureLine path position message := by
  have whole : settings.manner ≠ .soft := by
    rw [manner]
    split <;> nofun
  rw [checkFile] at checked
  split at checked
  next source _ =>
    rw [checkSource] at checked
    split at checked
    next rejected refused =>
      split at checked
      · cases checked
      · rw [← Except.ok.inj checked]
        exact Rejected.exists_line whole refused
    next document _ =>
      cases printed : settings.printed document with
      | error => simp [printed, Except.mapError, bind, Except.bind] at checked
      | ok text =>
        simp only [printed, Except.mapError, bind, Except.bind, pure, Except.pure] at checked
        rw [← Except.ok.inj checked] at failed
        cases failed
  next =>
    rw [← Except.ok.inj checked]
    exact ⟨none, Unreadable.missing.message, by decide, rfl⟩
  next fault _ =>
    rw [← Except.ok.inj checked]
    exact ⟨none, "not UTF-8 text (" ++ fault.message ++ ")", by cases fault <;> decide, rfl⟩
  next => cases checked

end Messages

/-! ### Several files -/

/-- The report of a single file is what the command leaves behind. -/
theorem summary_single (report : FileReport) :
    summary [report] = ⟨if report.failed then 1 else 0, report.output, report.aside⟩ := by
  cases failed : report.failed <;> simp [summary, failureCount, failed]

section Several

variable (look : Path → Entry) {options names : List String} {settings : CheckSettings}

/-- What is left behind by a command that is called with options and names. -/
theorem check_names (started : checkForm.start options = .ok (settings, [])) (some : names ≠ [])
    (plain : ∀ name ∈ names, IsPlainName name.toList) :
    check look (options ++ names) = (names.mapM fun name =>
      settings.checkFile (.ofText name.toList) (look (.ofText name.toList))).map summary := by
  have all := checkForm.start_append rfl started plain
  rw [check_of_start look all (by simpa using some), List.mapM_map]
  rfl

/-- What a command leaves behind that is called with options and a single name. -/
theorem check_single {name : String} {result : CommandResult}
    (started : checkForm.start options = .ok (settings, [])) (plain : IsPlainName name.toList)
    (checked : check look (options ++ [name]) = .ok result) :
    ∃ report, settings.checkFile (.ofText name.toList) (look (.ofText name.toList)) = .ok report ∧
      result = summary [report] := by
  rw [check_names look started (List.cons_ne_nil _ _) (List.forall_mem_singleton.2 plain)] at checked
  cases read : settings.checkFile (.ofText name.toList) (look (.ofText name.toList)) with
  | error => simp [read, Except.map, bind, Except.bind] at checked
  | ok report =>
    exact ⟨report, rfl, by simpa [read, Except.map, bind, Except.bind, pure, Except.pure, eq_comm]
      using checked⟩

/-- Files are checked independently. With options that are accepted, and with names that are not options
and none of which interrupts the command when it is alone, the command prints what it prints for each name
alone, one after the other, and at the end how many failed, if there are several names and one failed. Its
status is one just if one failed. What is printed about a file that fails is one line. -/
theorem check_each (started : checkForm.start options = .ok (settings, [])) (some : names ≠ [])
    (plain : ∀ name ∈ names, IsPlainName name.toList)
    (alone : ∀ name ∈ names, ∃ result, check look (options ++ [name]) = .ok result) :
    ∃ results result, check look (options ++ names) = .ok result ∧
      List.Forall₂ (fun name single => check look (options ++ [name]) = .ok single ∧
        (single.status = 0 ∨ single.status = 1) ∧
        (single.status = 1 → ∃ position message, OneLine message ∧
          single.output = failureLine (.ofText name.toList) position message)) names results ∧
      let failed := results.countP (·.status = 1)
      result.output = results.flatMap (·.output) ++
        (if 0 < failed ∧ 1 < names.length then
          '\n' :: Text.digits failed ++ " of ".toList ++ Text.digits names.length ++
            " file(s) failed\n".toList
        else []) ∧
      result.status = if 0 < failed then 1 else 0 := by
  have each : ∀ name ∈ names, ∃ report,
      settings.checkFile (.ofText name.toList) (look (.ofText name.toList)) = .ok report ∧
        check look (options ++ [name]) = .ok (summary [report]) ∧
          (report.failed = true → ∃ position message, OneLine message ∧
            report.output = failureLine (.ofText name.toList) position message) := by
    intro name mem
    obtain ⟨result, checked⟩ := alone name mem
    obtain ⟨report, read, rfl⟩ := check_single look started (plain name mem) checked
    exact ⟨report, read, checked, CheckSettings.exists_failureLine read⟩
  obtain ⟨reports, checked, pairs⟩ := exists_mapM_eq_ok each
  have count : (reports.map fun report => summary [report]).countP (·.status = 1) =
      reports.countP (·.failed) := by
    rw [List.countP_map]
    refine List.countP_congr fun report _ => ?_
    simp [summary_single]
  have outputs : (reports.map fun report => summary [report]).flatMap (·.output) =
      reports.flatMap (·.output) := by
    simp [List.flatMap_map, summary_single]
  refine ⟨reports.map fun report => summary [report], summary reports, ?_, ?_, ?_⟩
  · rw [check_names look started some plain, checked]
    rfl
  · refine List.forall₂_map_right_iff.2 (pairs.flip.imp fun name report ⟨single, line⟩ => ?_)
    refine ⟨single, ?_, fun one => ?_⟩
    · cases failed : report.failed <;> simp [summary_single, failed]
    · have failed : report.failed = true := by simpa [summary_single] using one
      simpa only [summary_single] using line failed
  · dsimp only
    rw [count, outputs, ← pairs.length_eq]
    refine ⟨?_, rfl⟩
    simp only [summary, failureCount, Bool.and_eq_true, decide_eq_true_eq]

/-- A file that is missing, and one that is printed as canonical text. -/
theorem check_each_missing :
    let look : Path → Entry := fun path =>
      if path.text = "b.thrift".toList then
        .file ("enum E\x7b\x7d".toList.flatMap String.utf8EncodeChar)
      else .missing
    let settings : CheckSettings := ⟨false, true, false, some 64, false⟩
    let names := ["a.thrift", "b.thrift"]
    checkForm.start ["--format"] = .ok (settings, []) ∧
      (∀ name ∈ names, IsPlainName name.toList) ∧
      (∀ name ∈ names, ∃ result, check look (["--format"] ++ [name]) = .ok result) ∧
      ∃ result, check look (["--format"] ++ names) = .ok result ∧ result.status = 1 ∧ result.output =
        "a.thrift: error: file not found\nenum E \x7b\x7d\n\n1 of 2 file(s) failed\n".toList := by
  intro look settings names
  have started : checkForm.start ["--format"] = .ok (settings, []) := by decide +kernel
  have plain : ∀ name ∈ names, IsPlainName name.toList := by
    simp only [names, IsPlainName]
    decide
  have first : check look (["--format"] ++ ["a.thrift"]) =
      .ok ⟨1, "a.thrift: error: file not found\n".toList, []⟩ := by decide +kernel
  have second : check look (["--format"] ++ ["b.thrift"]) =
      .ok ⟨0, "enum E \x7b\x7d\n".toList, []⟩ := by decide +kernel
  have alone : ∀ name ∈ names, ∃ result, check look (["--format"] ++ [name]) = .ok result := by
    simp only [names, List.forall_mem_cons]
    exact ⟨⟨_, first⟩, ⟨_, second⟩, nofun⟩
  obtain ⟨results, result, all, each, output, status⟩ :=
    check_each look started (List.cons_ne_nil _ _) plain alone
  obtain ⟨one, _, ⟨first', -⟩, others, rfl⟩ := List.forall₂_cons_left_iff.1 each
  obtain ⟨two, _, ⟨second', -⟩, none, rfl⟩ := List.forall₂_cons_left_iff.1 others
  obtain rfl := List.forall₂_nil_left_iff.1 none
  obtain rfl := Except.ok.inj (first.symm.trans first')
  obtain rfl := Except.ok.inj (second.symm.trans second')
  exact ⟨started, plain, alone, result, all, status, output.trans (by decide +kernel)⟩

end Several

end ThriftIdl
