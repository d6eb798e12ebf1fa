import Preflight.CommandLine.Run
import Preflight.Proofs.Agents.Batches

/-!
# The sections of a report

A report has a section on the descriptors and perhaps one on the manifest, if the task
is to check descriptors, and then one on each source of hooks that the task covers. It
has no other sections (`mem_sections_iff`), so what holds of each kind of section holds
of all reports.
-/

set_option autoImplicit false

namespace Preflight

/-- Pushing sections one after the other appends them all. -/
theorem Report.foldl_push (sections : List Section) (r : Report) :
    sections.foldl Report.push r = { r with sections := r.sections ++ sections } := by
  induction sections generalizing r with
  | nil => simp
  | cons s sections ih =>
    rw [List.foldl_cons, ih]
    simp [Report.push]

/-- What a run consists of, if it has a result. -/
theorem Agents.exists_of_run_eq_ok {t : FileTree} {root : Path} {config : Config}
    {options : Options} {r : Run} (h : run t root config options = .ok r) :
    ∃ inventory, Inventory.scan t (dirIn root config.agents options) config.agents.suffix =
        .ok inventory ∧
      r.outcome = checkFiles t inventory config.agents ++
        (compareManifest t root config options inventory).2 ∧
      r.manifest = (compareManifest t root config options inventory).1 := by
  cases hdirectory : t.isDirectory (dirIn root config.agents options) with
  | false => cases (run_of_not_isDirectory hdirectory).symm.trans h
  | true =>
    obtain ⟨inventory, hscan, hrun⟩ := exists_run options hdirectory
    cases hrun.symm.trans h
    exact ⟨inventory, hscan, rfl, rfl⟩

namespace CommandLine

/-- The descriptors that a task checks, if it checks any. -/
def Task.descriptors? : Task → Option Agents.Options
  | .agents options => some options
  | .all => some .default
  | .hooks _ => none
  | .config => none

/-- The sources of hooks that a task checks, if it checks any. -/
def Task.selection? : Task → Option Hooks.Selection
  | .hooks selection => some selection
  | .all => some .all
  | .agents _ => none
  | .config => none

/-- The sections on a batch of descriptors. -/
def agentSections (run : Agents.Run) : List Section :=
  ⟨Agents.source, some run.dir, true, run.outcome⟩ ::
    (run.manifest.map fun m => ⟨Manifest.source, some m.path, true, m.outcome⟩).toList

/-- What the hooks of a project are checked against. -/
def Environment.checker (env : Environment) (root : Path) (config : Config) : Hooks.Checker :=
  ⟨config.hooks, env.resolver root, env.files⟩

/-- A batch of descriptors adds its own sections to a report. -/
theorem sections_addAgents (r : Report) (run : Agents.Run) :
    (addAgents r run).sections = r.sections ++ agentSections run := by
  unfold addAgents agentSections
  cases run.manifest with
  | none => rfl
  | some m => simp [Report.push]

/-- Checked hooks add one section for each of their sources. -/
theorem sections_addHooks (r : Report) (run : Hooks.Run) :
    (addHooks r run).sections = r.sections ++ run.sources.map hookSection := by
  unfold addHooks
  rw [Report.foldl_push]

variable {env : Environment} {root : Path} {config : Config} {task : Task} {report : Report}

/-- A report on descriptors comes from a run and has the sections of this run only. -/
theorem sections_of_reportAgents {options : Agents.Options}
    (h : reportAgents env root config options = .ok report) :
    ∃ run, Agents.run env.files root config options = .ok run ∧
      report.sections = agentSections run := by
  unfold reportAgents at h
  cases hrun : Agents.run env.files root config options with
  | error e =>
    rw [hrun] at h
    cases h
  | ok run =>
    rw [hrun] at h
    cases h
    exact ⟨run, rfl, sections_addAgents .empty run⟩

/-- The sections on hooks are those on the sources that the selection means. -/
theorem mem_sources_run_iff (selection : Hooks.Selection) (s : Section) :
    s ∈ (Hooks.run env.files config (env.resolver root) selection).sources.map hookSection ↔
      ∃ source ∈ Hooks.sources config.hooks (env.resolver root) selection,
        s = hookSection ((env.checker root config).checkSource source) := by
  simp only [Hooks.run, List.map_map, List.mem_map, Function.comp_apply, eq_comm (a := s)]
  rfl

/-- The sections of a report are those on the descriptors and those on the sources of hooks that the
task is to check. -/
theorem mem_sections_iff (h : perform env root config task = .ok (.report report)) (s : Section) :
    s ∈ report.sections ↔
      (∃ options ∈ task.descriptors?, ∃ run, Agents.run env.files root config options = .ok run ∧
        s ∈ agentSections run) ∨
      ∃ selection ∈ task.selection?,
        ∃ source ∈ Hooks.sources config.hooks (env.resolver root) selection,
          s = hookSection ((env.checker root config).checkSource source) := by
  have hunique : ∀ {options run}, Agents.run env.files root config options = .ok run →
      ((∃ run, Agents.run env.files root config options = .ok run ∧ s ∈ agentSections run) ↔
        s ∈ agentSections run) := by
    intro options run hrun
    simp [hrun]
  cases task with
  | config => cases h
  | hooks selection =>
    cases h
    rw [reportHooks, sections_addHooks, Report.empty, List.nil_append, mem_sources_run_iff]
    simp [Task.descriptors?, Task.selection?]
  | agents options =>
    cases hreport : reportAgents env root config options with
    | error e =>
      rw [perform, hreport] at h
      cases h
    | ok r =>
      rw [perform, hreport] at h
      cases h
      obtain ⟨run, hrun, hsections⟩ := sections_of_reportAgents hreport
      simp [Task.descriptors?, Task.selection?, hsections, hunique hrun]
  | all =>
    cases hreport : reportAgents env root config .default with
    | error e =>
      rw [perform, hreport] at h
      cases h
    | ok r =>
      rw [perform, hreport] at h
      cases h
      obtain ⟨run, hrun, hsections⟩ := sections_of_reportAgents hreport
      rw [reportHooks, sections_addHooks, List.mem_append, mem_sources_run_iff, hsections]
      simp [Task.descriptors?, Task.selection?, hunique hrun]

/-- A task that checks descriptors reports on them. -/
theorem exists_run_of_descriptors? {options : Agents.Options}
    (h : perform env root config task = .ok (.report report))
    (hoptions : options ∈ task.descriptors?) :
    ∃ run, Agents.run env.files root config options = .ok run ∧
      ∀ s ∈ agentSections run, s ∈ report.sections := by
  have hrun : ∃ run, Agents.run env.files root config options = .ok run := by
    cases hreport : reportAgents env root config options with
    | error e => cases task <;> cases hoptions <;> simp only [perform, hreport] at h <;> cases h
    | ok r =>
      obtain ⟨run, hrun, -⟩ := sections_of_reportAgents hreport
      exact ⟨run, hrun⟩
  obtain ⟨run, hrun⟩ := hrun
  exact ⟨run, hrun, fun s hs => (mem_sections_iff h s).2 (.inl ⟨options, hoptions, run, hrun, hs⟩)⟩

/-- A source that a task checks has a section. -/
theorem hookSection_mem {selection : Hooks.Selection} {source : Hooks.Source}
    (h : perform env root config task = .ok (.report report)) (hselection : selection ∈ task.selection?)
    (hsource : source ∈ Hooks.sources config.hooks (env.resolver root) selection) :
    hookSection ((env.checker root config).checkSource source) ∈ report.sections :=
  (mem_sections_iff h _).2 (.inr ⟨selection, hselection, source, hsource, rfl⟩)

end CommandLine

end Preflight
