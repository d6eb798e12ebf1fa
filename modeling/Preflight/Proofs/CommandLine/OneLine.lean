import Preflight.Proofs.CommandLine.ShownTexts
import Preflight.Proofs.Report.OneLine

/-!
# One line for each issue

A run has one error line for each error, section by section, and its report has a row for
each heading and for each diagnostic that is shown. A line feed in a text from outside can
break one of them into several lines. In the report only a path, a file name, a field, the
key of the manifest or a lifecycle can: whatever matchers, commands, manifest entries and
values of headers say, the rows of the report are its lines (`run_lines`). An error line
also quotes what the message quotes, and there any of them can.
-/

set_option autoImplicit false

namespace Preflight.CommandLine

open Preflight.Text

variable {env : Environment} {root : Path} {config : Config} {report : Report}

/-- The error lines of a report are those of its sections, one for each error. -/
theorem errorLines_eq (report : Report) :
    report.errorLines = report.sections.flatMap fun s => s.outcome.errors.map Diagnostic.errorLine := by
  simp only [Report.errorLines, Report.outcome, Outcome.errors, Outcome.concat, List.flatMap_map,
    List.filter_flatMap, List.map_flatMap]

/-- A fixed title and a path stay on one line if the path does. -/
theorem isOneLine_fullTitle_iff {p : String → Prop} {s : Section} (h : s.Shows p) :
    IsOneLine s.fullTitle ↔ ∀ path ∈ s.path, IsOneLine path.text := by
  have htitle : IsOneLine s.title :=
    (by decide : ∀ title ∈ ["agents", "manifest", "hooks: global", "hooks: project"],
      IsOneLine title) s.title h.title
  unfold Section.fullTitle
  cases s.path with
  | none => simpa using htitle
  | some path => simp +decide [htitle]

/-- The fixed names of sources have no line feed. -/
theorem isOneLine_of_mem_sources : ∀ source ∈ Location.sources, IsOneLine source := by
  decide

/-- **One line for each issue.** A run has one error line for each error, in the order of the sections;
the report of a run, for any terminal, is written row by row, and a section that shows diagnostics has
one row for each of them and one for each heading. An error line stays on one line exactly if the scope
and the field of its error and its message do. The row of a diagnostic does exactly if the field does,
whatever the message is, and all rows are the lines of the report exactly if the paths of the sections
and the scope and the field of each diagnostic that is shown stay on one line. These are texts that the
task accounts for: file names, paths, fields, the key of the manifest and lifecycles. -/
theorem run_lines (hfiles : env.files.WellNamed) {arguments : List String} {request : Request}
    (hrequest : Request.ofArguments arguments = .ok request)
    (hroot : env.root request.root = .ok root)
    (hconfig : Config.load env.files root request.config = .ok config)
    (hreport : Reports env arguments report) :
    report.errorLines =
      report.sections.flatMap (fun s => s.outcome.errors.map Diagnostic.errorLine) ∧
    (∀ t verbose, report.render t verbose = unlines (report.rows t verbose)) ∧
    (∀ s ∈ report.sections, ∀ t verbose, s.visible verbose ≠ [] →
      (s.issueRows t verbose).length = (s.headings verbose).length + (s.visible verbose).length) ∧
    (∀ d ∈ report.outcome.errors,
      IsOneLine d.errorLine ↔ d.HasOneLinePlace ∧ IsOneLine d.message) ∧
    (∀ d ∈ report.outcome.diagnostics,
      IsOneLine d.issueLine ↔ ∀ field ∈ d.location.field, IsOneLine field) ∧
    (∀ t verbose, lines (report.render t verbose).toList =
        (report.rows t verbose).map (fun row => (row ++ "\n").toList) ↔
      ∀ s ∈ report.sections, (∀ path ∈ s.path, IsOneLine path.text) ∧
        ∀ d ∈ s.visible verbose, d.HasOneLinePlace) ∧
    (∀ s ∈ report.sections, s.Shows (IsShown env root config request.task)) ∧
    ((∀ text, IsShown env root config request.task text → IsOneLine text) →
      ∀ t verbose, lines (report.render t verbose).toList =
        (report.rows t verbose).map fun row => (row ++ "\n").toList) := by
  have hperform : perform env root config request.task = .ok (.report report) :=
    (answer_eq hroot hconfig).symm.trans (hreport.answer_eq hrequest)
  have hshows : ∀ s ∈ report.sections, s.Shows (IsShown env root config request.task) :=
    fun s hs => shows_of_mem_sections hfiles hperform hs
  have hlines : ∀ t verbose, lines (report.render t verbose).toList =
        (report.rows t verbose).map (fun row => (row ++ "\n").toList) ↔
      ∀ s ∈ report.sections, (∀ path ∈ s.path, IsOneLine path.text) ∧
        ∀ d ∈ s.visible verbose, d.HasOneLinePlace := by
    intro t verbose
    rw [Report.lines_render_iff]
    exact forall₂_congr fun s hs => and_congr_left' (isOneLine_fullTitle_iff (hshows s hs))
  refine ⟨errorLines_eq report, fun t verbose => report.render_eq_unlines t verbose,
    fun s _ t verbose => Section.length_issueRows t, ?_, fun d _ => d.isOneLine_issueLine_iff, hlines,
    hshows, ?_⟩
  · intro d hd
    obtain ⟨o, ho, hdo⟩ := List.mem_flatMap.1 (List.mem_of_mem_filter hd)
    obtain ⟨s, hs, rfl⟩ := List.mem_map.1 ho
    have hsource := isOneLine_of_mem_sources _ ((hshows s hs).outcome d hdo).source
    rw [Diagnostic.isOneLine_errorLine_iff, and_iff_right hsource]
  · intro hone t verbose
    rw [hlines]
    intro s hs
    refine ⟨fun path hpath => hone _ ((hshows s hs).path path hpath), fun d hd => ?_⟩
    have hplace := ((hshows s hs).outcome d (List.mem_of_mem_filter hd)).imp hone
    exact ⟨hplace.scope, hplace.field⟩

/-- Settings with line feeds in a matcher and in a command. -/
def brokenCommand : String :=
  "\x7b\"hooks\": \x7b\"Stop\": [\x7b\"matcher\": \"a\\nb c\", " ++
    "\"hooks\": [\x7b\"type\": \"command\", \"command\": \"'./a\\nb'\"\x7d]\x7d]\x7d\x7d"

/-- Settings with a line feed in the name of a lifecycle. -/
def brokenLifecycle : String :=
  "\x7b\"hooks\": \x7b\"a\\nb\": []\x7d\x7d"

/-- A project with a settings file alone has well-formed names. -/
theorem wellNamed_settingsOnly (text : String) : (settingsOnly text).files.WellNamed := by
  have hdirectory : IsFileName ".claude" := by decide
  have hfile : IsFileName "settings.json" := by decide
  refine .directory (List.forall_mem_singleton.2 hdirectory) ?_
  intro e he
  rw [List.mem_singleton.1 he]
  refine .directory (List.forall_mem_singleton.2 hfile) ?_
  intro e he
  rw [List.mem_singleton.1 he]
  exact .file _

/-- A terminal without colours. -/
def plainTerminal : Terminal := ⟨80, false⟩

/-- The line feeds of the matcher and of the command leave the report as it is meant to be, but break
the error line. -/
theorem run_lines_of_brokenCommand :
    ∃ report, Reports (settingsOnly brokenCommand) ["--root", "/", "hooks", "--project"] report ∧
      lines (report.render plainTerminal false).toList =
        (report.rows plainTerminal false).map (fun row => (row ++ "\n").toList) ∧
      ∃ d ∈ report.outcome.errors, ¬IsOneLine d.errorLine := by
  have hroot : (settingsOnly brokenCommand).root (some ⟨"/"⟩) = .ok ⟨"/"⟩ := by decide +kernel
  have hconfig : Config.load (settingsOnly brokenCommand).files ⟨"/"⟩ none = .ok .default := by
    decide +kernel
  have hreport := reports_of_answer ofArguments_projectHooks (answer_eq hroot hconfig)
  obtain ⟨-, -, -, herrors, -, hlines, -⟩ := run_lines (wellNamed_settingsOnly brokenCommand)
    ofArguments_projectHooks hroot hconfig hreport
  have hmessage : ∃ d ∈ (reportHooks (settingsOnly brokenCommand) ⟨"/"⟩ .default ⟨false, true⟩
      .empty).outcome.errors, ¬IsOneLine d.message := by
    decide +kernel
  refine ⟨_, hreport, ?_, ?_⟩
  · rw [hlines]
    decide +kernel
  · obtain ⟨d, hd, hfeed⟩ := hmessage
    exact ⟨d, hd, fun hline => hfeed ((herrors d hd).1 hline).2⟩

/-- A line feed in the name of a lifecycle breaks the error line, and in the report the heading over
the error, so the rows of the report are not its lines. -/
theorem not_isOneLine_of_brokenLifecycle :
    ∃ report, Reports (settingsOnly brokenLifecycle) ["--root", "/", "hooks", "--project"] report ∧
      (∃ line ∈ report.errorLines, ¬IsOneLine line) ∧
      (∃ s ∈ report.sections, s.headings false = ["a\nb"]) ∧
      lines (report.render plainTerminal false).toList ≠
        (report.rows plainTerminal false).map fun row => (row ++ "\n").toList := by
  have hroot : (settingsOnly brokenLifecycle).root (some ⟨"/"⟩) = .ok ⟨"/"⟩ := by decide +kernel
  have hconfig : Config.load (settingsOnly brokenLifecycle).files ⟨"/"⟩ none = .ok .default := by
    decide +kernel
  have hplace : ∃ d ∈ (reportHooks (settingsOnly brokenLifecycle) ⟨"/"⟩ .default ⟨false, true⟩
      .empty).outcome.errors, ¬d.HasOneLinePlace := by
    decide +kernel
  refine ⟨_, reports_of_answer ofArguments_projectHooks (answer_eq hroot hconfig), ?_, ?_, ?_⟩
  · obtain ⟨d, hd, hfeed⟩ := hplace
    exact ⟨d.errorLine, List.mem_map_of_mem hd, fun hline =>
      hfeed (d.isOneLine_errorLine_iff.1 hline).2.1⟩
  · decide +kernel
  · rw [Ne, Report.lines_render_iff]
    decide +kernel

end Preflight.CommandLine
