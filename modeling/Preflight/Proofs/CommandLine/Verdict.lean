import Preflight.Proofs.CommandLine.Lines
import Preflight.Proofs.CommandLine.Warnings

/-!
# The verdict of a run

The exit status and what is written to the error stream do not depend on how the
report is written. They are read off the sections of the report: a run succeeds if
no section holds an error, and otherwise repeats all errors in the order of the
sections and states how many errors and warnings there are. What a logger writes
stands before that; unless it is asked for more, it writes a line for each document
that cannot be read.

This is so wherever the report can be written. A text can always be, but JSON holds
paths letter by letter, and a path need not be a text.
-/

set_option autoImplicit false

namespace Preflight

namespace Report

variable (r : Report)

/-- The errors of a report are those of its sections, one section after the other. -/
theorem errors_outcome : r.outcome.errors = r.sections.flatMap fun s => s.outcome.errors := by
  unfold outcome Outcome.errors Outcome.concat
  rw [List.flatMap_map, List.filter_flatMap]

/-- A report has errors if one of its sections holds an error. -/
theorem hasErrors_outcome_iff :
    r.outcome.hasErrors = true ↔
      ∃ s ∈ r.sections, ∃ d ∈ s.outcome.diagnostics, d.severity = .error := by
  unfold outcome Outcome.hasErrors Outcome.concat
  simp [Diagnostic.isError]

/-- The paths of the sections of a report, and those that its diagnostics point to, are texts. -/
def HasTextPaths (isText : Path → Bool) : Prop :=
  ∀ s ∈ r.sections, (∀ path ∈ s.path, isText path = true) ∧
    ∀ d ∈ s.outcome.diagnostics, ∀ path ∈ d.location.path, isText path = true

/-- The paths that are looked at before a report is written are all there are. -/
theorem all_paths_iff (isText : Path → Bool) :
    r.paths.all isText = true ↔ r.HasTextPaths isText := by
  unfold paths HasTextPaths
  simp only [List.all_eq_true, List.mem_flatMap, List.mem_append, Option.mem_toList,
    List.mem_filterMap]
  constructor
  · intro h s hs
    exact ⟨fun path hpath => h path ⟨s, hs, .inl hpath⟩,
      fun d hd path hpath => h path ⟨s, hs, .inr ⟨d, hd, hpath⟩⟩⟩
  · rintro h path ⟨s, hs, hpath | ⟨d, hd, hpath⟩⟩
    · exact (h s hs).1 path hpath
    · exact (h s hs).2 d hd path hpath

end Report

/-! ### Lines of the log -/

/-- A logger that writes exactly the warnings takes no notice of other records. -/
theorem Logger.write_warnings {logger : Logger} (h : logger.admits = LogRecord.isWarning)
    (records : List LogRecord) : logger.write (warnings records) = logger.write records := by
  unfold write warnings
  rw [h, List.filter_filter]
  simp only [Bool.and_self]

namespace CommandLine

variable {env : Environment}

/-! ### Results -/

/-- A report can be written as a text, and as JSON if its paths are texts. -/
theorem exists_writeReport_iff (format : Format) (verbose : Bool) (r : Report) :
    (∃ text, writeReport env format verbose r = .ok text) ↔
      format = .text ∨ r.HasTextPaths env.isText := by
  rw [← r.all_paths_iff]
  cases format with
  | text => simp [writeReport]
  | json =>
    unfold writeReport Report.writeJson
    cases r.paths.all env.isText <;> simp [Except.map]

/-- The result tells the log what it is given to tell. -/
theorem records_reportResult (records : List LogRecord) (r : Report)
    (written : Except RunError String) : (reportResult records r written).records = records := by
  cases written with
  | error e => rfl
  | ok text =>
    unfold reportResult
    dsimp only
    split <;> rfl

/-- The status of a report that is written says whether there are errors. -/
theorem status_reportResult (records : List LogRecord) (r : Report) (text : String) :
    (reportResult records r (.ok text)).status = if r.outcome.hasErrors then 1 else 0 := by
  unfold reportResult
  dsimp only
  split <;> rfl

/-- The last line of a failed check counts the errors and the warnings. -/
theorem errorLine_issues (errors warnings : Nat) :
    errorLine (.issues errors warnings) =
      "Error: Validation error: " ++ toString errors ++ " error(s), " ++ toString warnings ++
        " warning(s).\n" := by
  have hline : errorLine (.issues errors warnings) =
      "Error: " ++ ("Validation error: " ++ toString errors ++ " error(s), " ++ toString warnings ++
        " warning(s).") ++ "\n" := rfl
  have hstart : "Error: Validation error: " = "Error: " ++ "Validation error: " := rfl
  have hend : " warning(s).\n" = " warning(s)." ++ "\n" := rfl
  rw [hline, hstart, hend]
  simp only [String.append_assoc]

/-- A report that is written and has errors repeats them and counts errors and warnings at the end. -/
theorem errors_reportResult (records : List LogRecord) (r : Report) (text : String) :
    (reportResult records r (.ok text)).errors =
      if r.outcome.hasErrors then
        String.join (r.errorLines.map (· ++ "\n")) ++
          ("Error: Validation error: " ++ toString r.summary.errors ++ " error(s), " ++
            toString r.summary.warnings ++ " warning(s).\n")
      else "" := by
  unfold reportResult
  dsimp only
  split
  · rw [errorLine_issues]
    rfl
  · rfl

/-- The report of a run can be written in the form that is asked for, if there is a report. -/
def Writes (env : Environment) (arguments : List String) : Prop :=
  ∀ request report, Request.ofArguments arguments = .ok request →
    answer env request = .ok (.report report) →
    request.format = .text ∨ report.HasTextPaths env.isText

/-- The same records are told for requests that differ only in how a report is written. -/
theorem records_eq_of_alike {r r' : Request} (h : r.Alike r') : records env r = records env r' := by
  unfold records
  rw [h.root, h.config, h.task]

/-- The same answer is given to requests that differ only in how a report is written. -/
theorem answer_eq_of_alike {r r' : Request} (h : r.Alike r') : answer env r = answer env r' := by
  unfold answer
  rw [h.root, h.config, h.task]

/-- Requests that differ only in how a report is written have the same result but for the output, if
their report can be written. -/
theorem respond_eq_of_alike {r r' : Request} (h : r.Alike r')
    (hwrites : ∀ report, answer env r = .ok (.report report) →
      r.format = .text ∨ report.HasTextPaths env.isText)
    (hwrites' : ∀ report, answer env r' = .ok (.report report) →
      r'.format = .text ∨ report.HasTextPaths env.isText) :
    (respond env r).status = (respond env r').status ∧
      (respond env r).records = (respond env r').records ∧
      (respond env r).errors = (respond env r').errors := by
  have hanswer : answer env r = answer env r' := answer_eq_of_alike h
  unfold respond
  rw [hanswer, records_eq_of_alike h]
  rw [hanswer] at hwrites
  cases hreport : answer env r' with
  | error e => exact ⟨rfl, rfl, rfl⟩
  | ok a =>
    cases a with
    | text text => exact ⟨rfl, rfl, rfl⟩
    | report report =>
      obtain ⟨text, htext⟩ :=
        (exists_writeReport_iff r.format r.verbose report).2 (hwrites report hreport)
      obtain ⟨text', htext'⟩ :=
        (exists_writeReport_iff r'.format r'.verbose report).2 (hwrites' report hreport)
      dsimp only
      rw [htext, htext']
      refine ⟨?_, ?_, ?_⟩
      · rw [status_reportResult, status_reportResult]
      · rw [records_reportResult, records_reportResult]
      · rw [errors_reportResult, errors_reportResult]

/-- Command lines that differ only in how a report is written have the same result but for the output,
if their report can be written. -/
theorem run_eq_of_alike {arguments arguments' : List String} {l l' : Line}
    (hl : Line.ofArguments arguments = .ok l) (hl' : Line.ofArguments arguments' = .ok l')
    (h : l.Alike l') (hwrites : Writes env arguments) (hwrites' : Writes env arguments') :
    (run env arguments).status = (run env arguments').status ∧
      (run env arguments).records = (run env arguments').records ∧
      (run env arguments).errors = (run env arguments').errors := by
  have hrequest : Request.ofArguments arguments = l.request := by
    rw [Request.ofArguments_eq, hl]
    rfl
  have hrequest' : Request.ofArguments arguments' = l'.request := by
    rw [Request.ofArguments_eq, hl']
    rfl
  unfold run
  rcases request_eq_of_alike h with ⟨stop, hstop, hstop'⟩ | ⟨r, r', hr, hr', halike⟩
  · rw [hrequest, hrequest', hstop, hstop']
    exact ⟨rfl, rfl, rfl⟩
  · rw [hrequest.trans hr, hrequest'.trans hr']
    exact respond_eq_of_alike halike (hwrites r · (hrequest.trans hr))
      (hwrites' r' · (hrequest'.trans hr'))

/-! ### Reports -/

/-- In a project with a configuration the answer is what doing the task gives. -/
theorem answer_eq {request : Request} {root : Path} {config : Config}
    (hroot : env.root request.root = .ok root)
    (hconfig : Config.load env.files root request.config = .ok config) :
    answer env request = perform env root config request.task := by
  unfold answer
  rw [hroot]
  simp only [bind, Except.bind, hconfig]

/-- A task that checks something has a report if the directory of descriptors can be read. -/
theorem exists_report {root : Path} {config : Config} {task : Task} (htask : task ≠ .config)
    (hdirectory : ∀ options ∈ task.descriptors?,
      env.files.isDirectory (Agents.dirIn root config.agents options) = true) :
    ∃ report, perform env root config task = .ok (.report report) := by
  have hagents : ∀ options ∈ task.descriptors?,
      ∃ report, reportAgents env root config options = .ok report := by
    intro options hoptions
    obtain ⟨inventory, -, hrun⟩ := Agents.exists_run options (hdirectory options hoptions)
    unfold reportAgents
    rw [hrun]
    exact ⟨_, rfl⟩
  cases task with
  | agents options =>
    obtain ⟨report, hreport⟩ := hagents options rfl
    refine ⟨report, ?_⟩
    simp only [perform, hreport, Except.map]
  | hooks selection => exact ⟨_, rfl⟩
  | all =>
    obtain ⟨report, hreport⟩ := hagents .default rfl
    refine ⟨reportHooks env root config .all report, ?_⟩
    simp only [perform, hreport, Except.map]
  | config => exact absurd rfl htask

/-- Whether an answer is a report with a property. -/
def Answer.satisfies (p : Report → Bool) : Answer → Bool
  | .report r => p r
  | .text _ => false

/-- An answer that can be computed as far as some property of its report is that report. -/
theorem exists_report_of_satisfies {request : Request} {p : Report → Bool}
    (h : (answer env request).map (Answer.satisfies p) = .ok true) :
    ∃ report, answer env request = .ok (.report report) ∧ p report = true := by
  cases hanswer : answer env request with
  | error e =>
    rw [hanswer] at h
    cases h
  | ok a =>
    rw [hanswer] at h
    cases a with
    | text text => cases h
    | report report => exact ⟨report, rfl, Except.ok.inj h⟩

/-- The result states the verdict of a report: success without errors, and a failure that repeats the
errors and counts them otherwise. A run that succeeds has nothing to warn of. -/
structure IsVerdict (report : Report) (result : Result) : Prop where
  success : result.status = 0 ↔
    ∀ s ∈ report.sections, ∀ d ∈ s.outcome.diagnostics, d.severity ≠ .error
  silence : result.status = 0 → warnings result.records = [] ∧
    ∀ logger, result.errorStream logger = logger.write result.records
  failure : result.status ≠ 0 → result.status = 1 ∧
    ∀ logger, result.errorStream logger = logger.write result.records ++
      (String.join (report.errorLines.map (· ++ "\n")) ++
        ("Error: Validation error: " ++ toString report.summary.errors ++ " error(s), " ++
          toString report.summary.warnings ++ " warning(s).\n"))
  lines : report.errorLines =
    (report.sections.flatMap fun s => s.outcome.errors).map Diagnostic.errorLine
  count : report.errorLines.length = report.summary.errors

/-- A report that is written brings its verdict, if there are only warnings about documents whose
failure is an error of the report too. -/
theorem isVerdict_reportResult {records : List LogRecord} {r : Report} (text : String)
    (hrecords : (∀ s ∈ r.sections, ∀ d ∈ s.outcome.diagnostics, d.severity ≠ .error) →
      warnings records = []) :
    IsVerdict r (reportResult records r (.ok text)) := by
  have hsuccess : r.outcome.hasErrors = false ↔
      ∀ s ∈ r.sections, ∀ d ∈ s.outcome.diagnostics, d.severity ≠ .error := by
    rw [← Bool.not_eq_true, r.hasErrors_outcome_iff]
    simp
  have hlines : r.errorLines =
      (r.sections.flatMap fun s => s.outcome.errors).map Diagnostic.errorLine := by
    unfold Report.errorLines
    rw [r.errors_outcome]
  have hcount : r.errorLines.length = r.summary.errors := List.length_map _
  cases herrors : r.outcome.hasErrors with
  | false =>
    have hstatus : (reportResult records r (.ok text)).status = 0 := by
      rw [status_reportResult, herrors]
      rfl
    refine ⟨?_, ?_, ?_, hlines, hcount⟩
    · exact iff_of_true hstatus (hsuccess.1 herrors)
    · intro _
      rw [records_reportResult]
      refine ⟨hrecords (hsuccess.1 herrors), fun logger => ?_⟩
      rw [Result.errorStream, records_reportResult, errors_reportResult, herrors]
      exact String.append_empty
    · intro hne
      exact absurd hstatus hne
  | true =>
    have hstatus : (reportResult records r (.ok text)).status = 1 := by
      rw [status_reportResult, herrors]
      rfl
    have hne : (reportResult records r (.ok text)).status ≠ 0 := by
      rw [hstatus]
      exact Nat.one_ne_zero
    refine ⟨?_, ?_, ?_, hlines, hcount⟩
    · refine iff_of_false hne ?_
      intro hall
      have hfalse := hsuccess.2 hall
      rw [herrors] at hfalse
      cases hfalse
    · intro hzero
      exact absurd hzero hne
    · intro _
      refine ⟨hstatus, fun logger => ?_⟩
      rw [Result.errorStream, records_reportResult, errors_reportResult, herrors]
      rfl

/-- After a success a logger that writes warnings only has nothing to write. -/
theorem IsVerdict.errorStream_eq_empty {report : Report} {result : Result} {logger : Logger}
    (h : IsVerdict report result) (hlogger : logger.admits = LogRecord.isWarning)
    (hstatus : result.status = 0) : result.errorStream logger = "" := by
  obtain ⟨hnone, hstream⟩ := h.silence hstatus
  rw [hstream, ← Logger.write_warnings hlogger, hnone]
  rfl

/-- Settings with a script that is not there. -/
def missingScript : String :=
  "\x7b\"hooks\": \x7b\"Stop\": [\x7b\"hooks\": [\x7b\"type\": \"command\", " ++
    "\"command\": \"sh gone.sh\"\x7d]\x7d]\x7d\x7d"

/-- A project with a descriptor whose header is empty, one that is no text, and hooks, checked from its
parent directory. -/
def smallProject : Environment where
  files := ⟨[("w", .directory
    [("agents", .directory [("a.md", .file (some "---\n---\n")), ("b.md", .file none)]),
      (".claude", .directory [("settings.json", .file (some missingScript))])])]⟩
  vars := .empty
  home? := none
  workingDirectory := ⟨"/"⟩
  screen := false
  isText := fun _ => true

/-- The logger that is used in an environment that asks for none, at a fixed time. -/
def plainLogger : Logger :=
  .ofVariables .empty fun _ => "2026-01-01T00:00:00.000000Z"

/-- Without a variable of its own the log admits the warnings and nothing below them. -/
theorem admits_plainLogger : plainLogger.admits = LogRecord.isWarning := by
  have hlevel : String.ofList (Text.lowerAscii
      (((Table.empty : Table String).find? Logger.levelVariable).getD Logger.defaultLevel).toList) =
      Logger.defaultLevel := by decide +kernel
  rw [plainLogger, Logger.ofVariables, hlevel]
  exact LogRecord.isAdmitted_defaultLevel

/-- Every report can be written where all paths are texts. -/
theorem writes_of_isText (h : ∀ path, env.isText path = true) (arguments : List String) :
    Writes env arguments :=
  fun _ _ _ _ => .inr fun _ _ => ⟨fun path _ => h path, fun _ _ path _ => h path⟩

/-- Settings with a lifecycle whose name goes over two lines. -/
def splitLifecycle : String :=
  "\x7b\"hooks\": \x7b\"Stop\\nStart\": []\x7d\x7d"

/-- A project with these settings alone, checked from its own directory. -/
def splitProject : Environment :=
  { smallProject with
    files := ⟨[("w", .directory
      [(".claude", .directory [("settings.json", .file (some splitLifecycle))])])]⟩
    workingDirectory := ⟨"/w"⟩ }

/-- A project in a directory whose name is no text, with a descriptor that is no text either. What is shown
for bytes that are no UTF-8 is the character U+FFFD. -/
def strayBytes : Environment where
  files := ⟨[("p\uFFFD", .directory [("agents", .directory [("a.md", .file none)])])]⟩
  vars := .empty
  home? := none
  workingDirectory := ⟨"/p\uFFFD"⟩
  screen := false
  isText := fun path => !path.text.toList.contains '\uFFFD'

end CommandLine

end Preflight
