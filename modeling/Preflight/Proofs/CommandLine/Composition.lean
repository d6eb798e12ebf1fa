import Preflight.Proofs.CommandLine.Options
import Preflight.Proofs.CommandLine.Verdict
import Preflight.Proofs.Report.Joins

/-!
# Runs that are put together

A run on both sources of hooks is the run on the global one followed by the run on
the one of the project. In the same way the report of `all` is that of `agents`
followed by that of `hooks`: a second check neither sees nor changes what the first
one found, and the counts beside the sections are added up. So `all` succeeds
exactly if the other two do, also if a run ends early: the root and the
configuration are the same for all three, and without a directory of descriptors
both `agents` and `all` fail.
-/

set_option autoImplicit false

namespace Preflight

/-- Asking for both scopes checks the sources of the one and then those of the other. -/
theorem Hooks.run_both (t : FileTree) (config : Config) (resolver : Resolver) (asked : Bool) :
    (Hooks.run t config resolver ⟨asked, asked⟩).sources =
      (Hooks.run t config resolver ⟨true, false⟩).sources ++
        (Hooks.run t config resolver ⟨false, true⟩).sources := by
  cases asked <;> rfl

namespace CommandLine

variable {env : Environment}

/-! ### Reports -/

/-- The check of hooks adds a report of its own to any other. -/
theorem joins_addHooks (r : Report) (run : Hooks.Run) :
    (addHooks r run).Joins r (addHooks .empty run) := by
  unfold addHooks
  rw [Report.foldl_push, Report.foldl_push]
  apply Report.joins_of_sections
  · rfl
  · rfl
  · show r.hookEntries + run.hooks = r.hookEntries + (0 + run.hooks)
    rw [Nat.zero_add]

/-- A run of everything fails as the run over the agents alone does, or is the two reports joined. -/
theorem perform_all (env : Environment) (root : Path) (config : Config) :
    (∃ e, perform env root config .all = .error e ∧
        perform env root config (.agents .default) = .error e) ∨
      ∃ whole agents hooks, perform env root config .all = .ok (.report whole) ∧
        perform env root config (.agents .default) = .ok (.report agents) ∧
        perform env root config (.hooks .all) = .ok (.report hooks) ∧
        whole.Joins agents hooks := by
  simp only [perform]
  cases reportAgents env root config .default with
  | error e => exact .inl ⟨e, rfl, rfl⟩
  | ok r => exact .inr ⟨_, _, _, rfl, rfl, rfl, joins_addHooks r _⟩

/-! ### Statuses -/

/-- A report brings success exactly if it passes and can be written. -/
theorem status_reportResult_eq_zero_iff (records : List LogRecord) (format : Format) (verbose : Bool)
    (r : Report) :
    (reportResult records r (writeReport env format verbose r)).status = 0 ↔
      r.summary.passed = true ∧ (format = .text ∨ r.HasTextPaths env.isText) := by
  rw [← exists_writeReport_iff format verbose]
  cases writeReport env format verbose r with
  | error e => simp [reportResult]
  | ok text =>
    rw [status_reportResult]
    unfold Report.summary
    cases r.outcome.hasErrors <;> simp

/-- A report that is put together from two others has text paths if both of them do. -/
theorem hasTextPaths_of_joins {whole first second : Report} (h : whole.Joins first second)
    (isText : Path → Bool) :
    whole.HasTextPaths isText ↔ first.HasTextPaths isText ∧ second.HasTextPaths isText := by
  unfold Report.HasTextPaths
  rw [h.sections, List.forall_mem_append]

/-- Answers to the same request but for the task: that for all checks is put together from those for the
two checks. -/
def AnswersJoin (env : Environment) (request : Request) : Prop :=
  ∃ whole agents hooks, answer env { request with task := .all } = .ok (.report whole) ∧
    answer env { request with task := .agents .default } = .ok (.report agents) ∧
    answer env { request with task := .hooks .all } = .ok (.report hooks) ∧ whole.Joins agents hooks

/-- With a directory of descriptors all three runs answer, and the whole joins its parts. -/
theorem answersJoin_of_isDirectory {request : Request} {root : Path} {config : Config}
    (hroot : env.root request.root = .ok root)
    (hconfig : Config.load env.files root request.config = .ok config)
    (hdirectory : env.files.isDirectory (Agents.dirIn root config.agents .default) = true) :
    AnswersJoin env request := by
  have hanswer : ∀ task, answer env { request with task } = perform env root config task :=
    fun task => answer_eq hroot hconfig
  rcases perform_all env root config with
    ⟨e, hall, -⟩ | ⟨whole, agents, hooks, hall, hagents, hhooks, hjoins⟩
  · have hdirectories : ∀ options ∈ Task.all.descriptors?,
        env.files.isDirectory (Agents.dirIn root config.agents options) = true := by
      intro options hoptions
      cases hoptions
      exact hdirectory
    obtain ⟨report, hreport⟩ := exists_report (by decide) hdirectories
    rw [hall] at hreport
    cases hreport
  · exact ⟨whole, agents, hooks, (hanswer _).trans hall, (hanswer _).trans hagents,
      (hanswer _).trans hhooks, hjoins⟩

/-- The same request for all checks succeeds exactly if it succeeds for each of the two checks. -/
theorem status_respond_all_iff (request : Request) :
    (respond env { request with task := .all }).status = 0 ↔
      (respond env { request with task := .agents .default }).status = 0 ∧
        (respond env { request with task := .hooks .all }).status = 0 := by
  unfold respond
  cases hroot : env.root request.root with
  | error e => simp [answer, hroot, bind, Except.bind]
  | ok root =>
    cases hconfig : Config.load env.files root request.config with
    | error e => simp [answer, hroot, hconfig, bind, Except.bind]
    | ok config =>
      have hanswer : ∀ task, answer env { request with task } = perform env root config task :=
        fun task => answer_eq hroot hconfig
      simp only [hanswer]
      rcases perform_all env root config with
        ⟨e, hall, hagents⟩ | ⟨whole, agents, hooks, hall, hagents, hhooks, hjoins⟩
      · simp [hall, hagents]
      · simp only [hall, hagents, hhooks, status_reportResult_eq_zero_iff, hjoins.passed,
          hasTextPaths_of_joins hjoins, Bool.and_eq_true]
        tauto

/-! ### Command lines -/

/-- The report that a run writes. -/
def Reports (env : Environment) (arguments : List String) (report : Report) : Prop :=
  ∃ request, Request.ofArguments arguments = .ok request ∧
    answer env request = .ok (.report report) ∧
    run env arguments = reportResult (records env request) report
      (writeReport env request.format request.verbose report)

/-- A request that has a report makes its command line write it. -/
theorem reports_of_answer {arguments : List String} {request : Request} {report : Report}
    (hrequest : Request.ofArguments arguments = .ok request)
    (hanswer : answer env request = .ok (.report report)) : Reports env arguments report := by
  refine ⟨request, hrequest, hanswer, ?_⟩
  unfold run
  rw [hrequest]
  dsimp only [respond]
  rw [hanswer]

/-- The report that a run writes is the answer to the request of its command line. -/
theorem Reports.answer_eq {arguments : List String} {request : Request} {report : Report}
    (h : Reports env arguments report) (hrequest : Request.ofArguments arguments = .ok request) :
    answer env request = .ok (.report report) := by
  obtain ⟨request', hrequest', hanswer, -⟩ := h
  cases hrequest.symm.trans hrequest'
  exact hanswer

section

variable {options rest : List String} {before : Given}

/-- A run of everything succeeds exactly if both of its halves do. -/
theorem status_run_all_iff (hoptions : AreOptions options before)
    (hrest : ∀ argument ∈ rest, isSwitch argument = false) :
    (run env (options ++ "all" :: rest)).status = 0 ↔
      (run env (options ++ "agents" :: rest)).status = 0 ∧
        (run env (options ++ "hooks" :: rest)).status = 0 := by
  have hcommand := fun name command (hname : CommandName.ofText? name = some command) =>
    ofArguments_command hoptions hname hrest
  unfold run
  rw [hcommand "all" .all rfl, hcommand "agents" .agents rfl, hcommand "hooks" .hooks rfl]
  cases readShared rest with
  | error stop => exact (and_self_iff).symm
  | ok after => exact status_respond_all_iff (Request.ofGiven before after .all)

/-- If the project, its configuration and the directory of descriptors can be read, `all` has the
report of `agents` followed by that of `hooks`. -/
theorem exists_reports {request : Request} {root : Path} {config : Config}
    (hoptions : AreOptions options before) (hrest : ∀ argument ∈ rest, isSwitch argument = false)
    (hrequest : Request.ofArguments (options ++ "all" :: rest) = .ok request)
    (hroot : env.root request.root = .ok root)
    (hconfig : Config.load env.files root request.config = .ok config)
    (hdirectory : env.files.isDirectory (Agents.dirIn root config.agents .default) = true) :
    ∃ whole agents hooks, Reports env (options ++ "all" :: rest) whole ∧
      Reports env (options ++ "agents" :: rest) agents ∧
      Reports env (options ++ "hooks" :: rest) hooks ∧ whole.Joins agents hooks := by
  have hcommand := fun name command (hname : CommandName.ofText? name = some command) =>
    ofArguments_command hoptions hname hrest
  cases hread : readShared rest with
  | error stop =>
    rw [hcommand "all" .all rfl, hread] at hrequest
    cases hrequest
  | ok after =>
    rw [hcommand "all" .all rfl, hread] at hrequest
    cases hrequest
    simp only [hread, Except.map] at hcommand
    obtain ⟨whole, agents, hooks, hall, hagents, hhooks, hjoins⟩ :=
      answersJoin_of_isDirectory hroot hconfig hdirectory
    refine ⟨whole, agents, hooks, ?_, ?_, ?_, hjoins⟩
    · exact reports_of_answer (hcommand "all" .all rfl) hall
    · exact reports_of_answer (hcommand "agents" .agents rfl) hagents
    · exact reports_of_answer (hcommand "hooks" .hooks rfl) hhooks

end

end CommandLine

end Preflight
