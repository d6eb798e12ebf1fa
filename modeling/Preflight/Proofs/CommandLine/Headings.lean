import Preflight.Proofs.CommandLine.Composition
import Preflight.Proofs.Hooks.Locations
import Preflight.Proofs.Manifest.Remarks
import Preflight.Proofs.Report.Headings

/-!
# No heading comes back

In each section of a report the diagnostics of a scope stand together: descriptors are
checked file by file, settings lifecycle by lifecycle, and all that is said about a
manifest has the manifest as scope; what has no scope stands alone or at the end. So the
text of a report has a heading over the diagnostics of a file, of a lifecycle or of a
manifest at most once a section, whether notes are shown or not (`run_headings_once`).
-/

set_option autoImplicit false

namespace Preflight

open Preflight.Diagnostic (AreGrouped areGrouped_of_scope_eq areGrouped_append areGrouped_concat_map)

/-! ### Descriptors -/

namespace Agents

variable {t : FileTree} {root : Path} {config : Config} {options : Options} {r : Run}

/-- Descriptors are checked one after the other, so the diagnostics of each stand together. -/
theorem areGrouped_checkFiles (ht : t.WellNamed) {dir : Path} {suffix : String}
    {inventory : Inventory} (hscan : Inventory.scan t dir suffix = .ok inventory)
    (rules : AgentRules) : AreGrouped (checkFiles t inventory rules).diagnostics := by
  have hnames : (inventory.names.map id).Nodup := by
    rw [List.map_id]
    exact inventory.names_nodup
  apply areGrouped_concat_map id hnames
  intro name hname d hd
  have hisName := (Inventory.isFileName_of_scan ht hscan hname).toIsName
  exact (checkFile_within t _ rules d hd).scope name
    (congrArg some (labelOf_join_name inventory.dir hisName))

/-- The diagnostics of a run over descriptors are grouped by their headings. -/
theorem areGrouped_run (ht : t.WellNamed) (h : run t root config options = .ok r) :
    AreGrouped r.outcome.diagnostics := by
  obtain ⟨inventory, hscan, houtcome, -⟩ := exists_of_run_eq_ok h
  obtain ⟨note, hnote, hcompare⟩ := exists_note t root config options inventory
  rw [houtcome, hcompare]
  apply areGrouped_append (areGrouped_checkFiles ht hscan config.agents)
  intro d hd
  rw [(hnote d (Option.mem_toList.1 hd)).location]
  rfl

end Agents

/-! ### Manifests -/

/-- All diagnostics about a manifest stand under its own path. -/
theorem Agents.areGrouped_manifest {t : FileTree} {root : Path} {config : Config}
    {options : Options} {inventory : Inventory} {m : ManifestRun}
    (h : (compareManifest t root config options inventory).1 = some m) :
    AreGrouped m.outcome.diagnostics := by
  unfold compareManifest at h
  split at h
  · cases h
  · split at h
    · cases h
    · cases h
      exact areGrouped_of_scope_eq _ fun d hd => Manifest.scope_of_mem_crossCheck hd
    · next issue _ =>
      cases h
      exact areGrouped_of_scope_eq issue.location.scope fun d hd => by
        rw [List.mem_singleton.1 hd]

/-! ### Hooks -/

namespace Hooks.Checker

variable (c : Checker)

/-- One diagnostic is a group. -/
theorem areGrouped_single (d : Diagnostic) : AreGrouped (Outcome.single d).diagnostics :=
  areGrouped_of_scope_eq d.location.scope fun e he => by rw [List.mem_singleton.1 he]

/-- The diagnostics of a settings document are grouped by their scope, of which there is one. -/
theorem areGrouped_checkSettings (label : String) (settings : Json.Value) :
    AreGrouped (c.checkSettings label settings).outcome.diagnostics := by
  cases h : lifecycles? settings with
  | none =>
    obtain ⟨d, hreport, -⟩ := c.checkSettings_of_none h label
    rw [hreport]
    exact areGrouped_single d
  | some lifecycles =>
    rw [c.checkSettings_of_lifecycles? h label]
    simp only [checkLifecycles, List.map_map]
    apply areGrouped_concat_map Prod.fst lifecycles.keys_nodup
    intro e _ d hd
    exact c.scope_eq_of_mem_checkLifecycle hd

/-- The diagnostics of a settings file are grouped, also if it could not be read. -/
theorem areGrouped_checkSource (source : Source) :
    AreGrouped (c.checkSource source).outcome.diagnostics := by
  simp only [checkSource]
  split
  · split
    · unfold checkText
      split
      · exact c.areGrouped_checkSettings _ _
      · exact areGrouped_single _
    · exact areGrouped_single _
  · exact areGrouped_single _

end Hooks.Checker

/-! ### Runs -/

namespace CommandLine

variable {env : Environment}

/-- The diagnostics of each section of a run are grouped by their headings. -/
theorem areGrouped_of_mem_sections (hfiles : env.files.WellNamed) {root : Path} {config : Config}
    {task : Task} {report : Report} (h : perform env root config task = .ok (.report report))
    {s : Section} (hs : s ∈ report.sections) : AreGrouped s.outcome.diagnostics := by
  rcases (mem_sections_iff h s).1 hs with
    ⟨options, -, run, hrun, hmem⟩ | ⟨selection, -, source, -, rfl⟩
  · rcases List.mem_cons.1 hmem with rfl | hmem
    · exact Agents.areGrouped_run hfiles hrun
    · obtain ⟨inventory, -, -, hmanifest⟩ := Agents.exists_of_run_eq_ok hrun
      obtain ⟨m, hm, rfl⟩ := Option.map_eq_some_iff.1 (Option.mem_toList.1 hmem)
      exact Agents.areGrouped_manifest (hmanifest.symm.trans hm)
  · exact (env.checker root config).areGrouped_checkSource source

/-- A run that answers with a report has found its root, read its configuration and performed its task.
-/
theorem exists_of_answer_report {request : Request} {report : Report}
    (h : answer env request = .ok (.report report)) :
    ∃ root config, env.root request.root = .ok root ∧
      Config.load env.files root request.config = .ok config ∧
      perform env root config request.task = .ok (.report report) := by
  unfold answer at h
  obtain ⟨root, hroot, h⟩ := exists_of_bind_eq_ok h
  obtain ⟨config, hconfig, h⟩ := exists_of_bind_eq_ok h
  exact ⟨root, config, hroot, hconfig, h⟩

/-- **Each scope has one heading.** In every section of the report of a run the diagnostics of a scope
form one block. As a text, with any terminal and with or without notes, the report consists of its
sections, written run by run, with the advice and the totals after them, and no heading stands twice
over runs of one section. -/
theorem run_headings_once (hfiles : env.files.WellNamed) {arguments : List String} {report : Report}
    (h : Reports env arguments report) :
    (∀ s ∈ report.sections, AreGrouped s.outcome.diagnostics) ∧
    (∀ t verbose, report.render t verbose =
      t.banner "agentlint" .info ++
        String.join (report.sections.map (Section.renderRuns t verbose)) ++
        report.renderRemediations t ++ report.renderSummary t) ∧
    ∀ s ∈ report.sections, ∀ verbose, (s.headings verbose).Nodup := by
  obtain ⟨request, -, hanswer, -⟩ := h
  obtain ⟨root, config, -, -, hperform⟩ := exists_of_answer_report hanswer
  have hgrouped : ∀ s ∈ report.sections, AreGrouped s.outcome.diagnostics :=
    fun s hs => areGrouped_of_mem_sections hfiles hperform hs
  refine ⟨hgrouped, ?_, ?_⟩
  · intro t verbose
    have hsections : report.sections.map (Section.render t verbose) =
        report.sections.map (Section.renderRuns t verbose) :=
      List.map_congr_left fun s _ => s.render_eq t verbose
    rw [Report.render, hsections]
  · intro s hs verbose
    exact Section.nodup_headings (hgrouped s hs) verbose

/-- A project with two descriptors, whose headers are empty, and hooks for two lifecycles. -/
def emptyHeaders : Environment where
  files := ⟨[("agents", .directory
      [("a.md", .file (some "---\n---\n")), ("b.md", .file (some "---\n---\n"))]),
    (".claude", .directory [("settings.json",
      .file (some "\x7b\"hooks\": \x7b\"Stop\": [1, 2], \"PreCompact\": [3, 4]\x7d\x7d"))])]⟩
  vars := .empty
  home? := none
  workingDirectory := ⟨"/"⟩
  screen := false
  isText := fun _ => true

/-- The names in the directory of the example are those of files. -/
theorem wellNamed_emptyHeaders : emptyHeaders.files.WellNamed := by
  refine .directory (by decide) ?_
  intro e he
  rcases List.mem_pair.1 he with rfl | rfl
  · refine .directory (by decide) ?_
    intro e he
    rcases List.mem_pair.1 he with rfl | rfl
    · exact .file _
    · exact .file _
  · refine .directory (by decide) ?_
    intro e he
    rw [List.mem_singleton.1 he]
    exact .file _

/-- Each heading stands over several lines. -/
theorem run_headings_once_of_emptyHeaders :
    emptyHeaders.files.WellNamed ∧
      ∃ report, Reports emptyHeaders ["--root", "/", "all"] report ∧
        report.sections.map (Section.headings · true) =
          [["a.md", "b.md"], [], ["PreCompact", "Stop"]] ∧
        (∀ s ∈ report.sections, AreGrouped s.outcome.diagnostics) ∧
        ∀ s ∈ report.sections, ∀ verbose, (s.headings verbose).Nodup := by
  have hcomputed : (answer emptyHeaders ⟨some ⟨"/"⟩, none, .text, false, .all⟩).map
      (Answer.satisfies fun r => r.sections.map (Section.headings · true) ==
        [["a.md", "b.md"], [], ["PreCompact", "Stop"]]) = .ok true := by
    decide +kernel
  obtain ⟨report, hanswer, hheadings⟩ := exists_report_of_satisfies hcomputed
  have hreports : Reports emptyHeaders ["--root", "/", "all"] report :=
    reports_of_answer (by decide +kernel) hanswer
  obtain ⟨hgrouped, -, hnodup⟩ := run_headings_once wellNamed_emptyHeaders hreports
  exact ⟨wellNamed_emptyHeaders, report, hreports, beq_iff_eq.1 hheadings, hgrouped, hnodup⟩

end CommandLine

end Preflight
