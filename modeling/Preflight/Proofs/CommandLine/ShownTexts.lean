import Preflight.Proofs.CommandLine.Advice
import Preflight.Proofs.Diagnostic.Shown

/-!
# Which texts a report shows

Apart from what messages say, the texts in a report that a project chooses are the names
of its descriptor files, a few paths, the fields and the key that its configuration
requires, and the names of the lifecycles in its settings; all others are fixed
(`shows_of_mem_sections`). Matchers, commands, the entries of a manifest and the values of
headers are quoted in messages only.
-/

set_option autoImplicit false

namespace Preflight

open Preflight.Json (Value)

variable {p : String → Prop}

/-! ### Descriptors -/

namespace Agents

variable {rules : AgentRules} (hrequired : ∀ field ∈ rules.requiredFields, p field)
  (hfields : ∀ field ∈ documentFields, p field)

include hrequired hfields

/-- What is said about a header shows the label of its file and the fields that are required or known.
-/
theorem shows_checkDocument (doc : Header.Document) (stem : String) {label : String}
    (hlabel : p label) : (checkDocument doc stem label rules).Shows p := by
  intro d hd
  obtain ⟨field, hfield, hlocation⟩ := exists_field_of_mem_checkDocument hd
  rw [hlocation]
  exact ((Location.shows_ofSource (by decide)).inScope hlabel).atField
    (hfield.elim (hrequired field) (hfields field))

/-- What is said about a descriptor file shows its label and the fields that are required or known. -/
theorem shows_checkFile (t : FileTree) {path : Path} (hlabel : p (labelOf path)) :
    (checkFile t path rules).Shows p := by
  have hplace : (((Location.ofSource source).inScope (labelOf path)).onPath path).Shows p :=
    ((Location.shows_ofSource (by decide)).inScope hlabel).onPath path
  unfold checkFile
  dsimp only
  split
  · exact Outcome.shows_single hplace
  · split
    · exact shows_checkDocument hrequired hfields _ _ hlabel
    · exact Outcome.shows_single hplace

end Agents

/-! ### Manifests -/

namespace Manifest

variable {t : FileTree} {m : Manifest} {inventory : Inventory} {root : Path}

/-- The cross check shows the path of the manifest, its key and the names of the descriptors. -/
theorem shows_crossCheck (hpath : p m.path.text) (hkey : p m.key)
    (hnames : ∀ name ∈ inventory.names, p name) (suffix : String) :
    (crossCheck t m inventory root suffix).Shows p := by
  have hplace : m.location.Shows p := (Location.shows_ofSource (by decide)).inScope hpath
  have hentry : ∀ index, (m.locationOf index).Shows p :=
    fun index => (hplace.atEntry index).atField hkey
  intro d hd
  rcases mem_crossCheck_iff.1 hd with h | h | h | h
  · obtain ⟨index, value, -, hd⟩ := exists_entry_of_mem_checkEntries h
    exact (isError_of_mem_checkEntry hd).2.shows (hentry index)
  · obtain ⟨index, entry, -, -, rfl⟩ := mem_checkRepetitions_iff.1 h
    exact hentry index
  · rw [(isError_of_mem_checkCount h).2]
    exact hplace
  · obtain ⟨-, name, hname, hlocation⟩ := isError_of_mem_checkUndeclared h
    rw [hlocation]
    exact hplace.atField (hnames name hname)

variable {rules : ManifestRules} {explicit : Option Path}

/-- A manifest that is loaded is the one that the rules and options name. -/
theorem of_load_eq_ok (h : load t root rules explicit = .ok (some m)) :
    m.path = pathIn root rules explicit ∧ m.key = rules.key := by
  unfold load at h
  dsimp only at h
  split at h
  · split at h
    · cases h
    · unfold ofText at h
      dsimp only at h
      split at h
      · cases h
      · split at h
        · cases h
        · cases h
          exact ⟨rfl, rfl⟩
        · cases h
  · split at h
    · cases h
    · cases h

/-- The complaint about a manifest that cannot be loaded shows nothing but the key of the rules. -/
theorem shows_of_load_eq_error (hkey : p rules.key) {issue : Diagnostic}
    (h : load t root rules explicit = .error issue) : issue.location.Shows p := by
  have hplace : ((Location.ofSource source).onPath (pathIn root rules explicit)).Shows p :=
    (Location.shows_ofSource (by decide)).onPath _
  unfold load at h
  dsimp only at h
  split at h
  · split at h
    · cases h
      exact hplace
    · unfold ofText at h
      dsimp only at h
      split at h
      · cases h
        exact hplace
      · split at h
        · cases h
        · cases h
        · cases h
          exact hplace.atField hkey
  · split at h
    · cases h
      exact hplace
    · cases h

end Manifest

namespace Agents

variable {t : FileTree} {root : Path} {config : Config} {options : Options}

/-- A run over descriptors is one over the directory that the configuration and options name. -/
theorem dir_of_run_eq_ok {r : Run} (h : run t root config options = .ok r) :
    r.dir = dirIn root config.agents options := by
  unfold run at h
  dsimp only at h
  split at h
  · split at h
    · cases h
    · cases h
      rfl
  · cases h

/-- Comparing with the manifest shows its path, its key and the names of the descriptors. -/
theorem shows_compareManifest {inventory : Inventory}
    (hpath : p (Manifest.pathIn root config.manifest options.manifest).text)
    (hkey : p config.manifest.key) (hnames : ∀ name ∈ inventory.names, p name) {m : ManifestRun}
    (h : (compareManifest t root config options inventory).1 = some m) :
    m.path = Manifest.pathIn root config.manifest options.manifest ∧ m.outcome.Shows p := by
  unfold compareManifest at h
  split at h
  · cases h
  · split at h
    · cases h
    · next manifest hload =>
      obtain ⟨hmanifest, hmkey⟩ := Manifest.of_load_eq_ok hload
      cases h
      exact ⟨hmanifest, Manifest.shows_crossCheck (hmanifest ▸ hpath) (hmkey ▸ hkey) hnames _⟩
    · next issue hload =>
      cases h
      exact ⟨rfl, Outcome.shows_single (Manifest.shows_of_load_eq_error hkey hload)⟩

end Agents

/-! ### Hooks -/

namespace Hooks

/-- The fields of settings that are checked. -/
def settingsFields : List String := ["hooks", "matcher", "type", "command", "timeout"]

namespace Checker

variable (c : Checker) (hfields : ∀ field ∈ settingsFields, p field)

include hfields

section

variable {location : Location} (hlocation : location.Shows p)

include hlocation

/-- What is said about an action shows no text of its own. -/
theorem shows_checkAction (lifecycle : String) (action : Value) :
    (c.checkAction lifecycle location action).Shows p := by
  have hfield : ∀ {field : String}, field ∈ settingsFields → ∀ {issue : Option Diagnostic},
      (∀ d ∈ issue, d.location.IsAt (location.atField field)) →
        (Outcome.ofOption issue).Shows p := by
    intro field hmem issue hissue
    exact Outcome.shows_ofOption fun d hd =>
      (hissue d hd).shows (hlocation.atField (hfields field hmem))
  unfold checkAction
  cases action.members? with
  | none => exact Outcome.shows_single hlocation
  | some members =>
    have htype := hfield (by decide) (c.isAt_typeIssue? (members.find? "type"))
    have hcommand := hfield (by decide)
      (c.isAt_commandIssue? (members.find? "command"))
    have htimeout := hfield (by decide)
      (isAt_timeoutIssue? c.rules lifecycle (members.find? "timeout"))
    exact (htype.append hcommand).append htimeout

/-- What is said about the actions of an entry shows no text of its own. -/
theorem shows_checkActions (lifecycle : String) (actions : Option Value) :
    (c.checkActions lifecycle location actions).Shows p := by
  have hplace := hlocation.atField (hfields "hooks" (by decide))
  unfold checkActions
  split
  · exact Outcome.shows_single hplace
  · exact Outcome.shows_concat_zipIdx
      (fun action j => c.checkAction lifecycle (location.atAction j) action)
      (fun action j => c.shows_checkAction hfields (hlocation.atAction j) lifecycle action) _
  · exact Outcome.shows_single hplace

/-- What is said about an entry shows no text of its own. -/
theorem shows_checkEntry (lifecycle : String) (entry : Value) :
    (c.checkEntry lifecycle location entry).Shows p := by
  unfold checkEntry
  cases entry.members? with
  | none => exact Outcome.shows_single hlocation
  | some members =>
    have hmatcher : (Outcome.ofOption (matcherIssue? (members.find? "matcher") location)).Shows p :=
      Outcome.shows_ofOption fun d hd =>
        (isAt_matcherIssue? _ d hd).shows (hlocation.atField (hfields "matcher" (by decide)))
    exact hmatcher.append (c.shows_checkActions hfields hlocation lifecycle _)

end

variable {label : String} (hlabel : label ∈ Location.sources)

include hlabel

/-- What is said about a lifecycle shows its name. -/
theorem shows_checkLifecycle {lifecycle : String} (hlifecycle : p lifecycle) (value : Value) :
    (c.checkLifecycle label lifecycle value).2.Shows p := by
  have hplace := (Location.shows_ofSource hlabel).inScope hlifecycle
  unfold checkLifecycle
  split
  · split
    · exact Outcome.shows_concat_zipIdx
        (fun entry i => c.checkEntry lifecycle (entryPlace label lifecycle i) entry)
        (fun entry i => c.shows_checkEntry hfields (hplace.atEntry i) lifecycle entry) _
    · exact Outcome.shows_single hplace
  · exact Outcome.shows_single hplace

/-- What is said about a settings document shows its label and the names of its lifecycles. -/
theorem shows_checkSettings {settings : Value} (hnames : ∀ name ∈ lifecycleNames settings, p name) :
    (c.checkSettings label settings).outcome.Shows p := by
  have hplace : (Location.ofSource label).Shows p := Location.shows_ofSource hlabel
  unfold checkSettings
  dsimp only
  split
  · exact Outcome.shows_single hplace
  · next members hmembers =>
    split
    · exact Outcome.shows_single hplace
    · next hooks hhooks =>
      split
      · next lifecycles hlifecycles =>
        have hnamed : lifecycleNames settings = lifecycles.keys := by
          simp only [lifecycleNames, lifecycles?, Value.member?, hmembers, Option.bind_some, hhooks,
            hlifecycles, Option.elim_some]
        rw [hnamed] at hnames
        apply Outcome.shows_concat
        rw [List.map_map]
        exact List.forall_mem_map.2 fun e he => c.shows_checkLifecycle hfields hlabel
          (hnames e.1 (List.mem_map_of_mem he)) e.2
      · exact Outcome.shows_single (hplace.atField (hfields "hooks" (by decide)))

/-- What is said about a settings file shows its label and the names of the lifecycles in it. -/
theorem shows_checkSource {path : Path} (hnames : ∀ text settings,
      c.files.readText path = .ok text → Value.ofText text = .ok settings →
        ∀ name ∈ lifecycleNames settings, p name) :
    (c.checkSource ⟨label, path⟩).outcome.Shows p := by
  have hplace : ((Location.ofSource label).onPath path).Shows p :=
    (Location.shows_ofSource hlabel).onPath path
  simp only [checkSource]
  split
  · split
    · next text htext =>
      unfold checkText
      split
      · next settings hsettings =>
        exact c.shows_checkSettings hfields hlabel (hnames text settings htext hsettings)
      · exact Outcome.shows_single hplace
    · exact Outcome.shows_single hplace
  · exact Outcome.shows_single hplace

omit hfields hlabel

/-- Checking a source keeps its label. -/
theorem label_checkSource (source : Source) : (c.checkSource source).label = source.label := by
  have hsettings : ∀ settings, (c.checkSettings source.label settings).label = source.label := by
    intro settings
    cases h : lifecycles? settings with
    | none =>
      obtain ⟨d, hreport, -⟩ := c.checkSettings_of_none h source.label
      rw [hreport]
      rfl
    | some lifecycles =>
      rw [c.checkSettings_of_lifecycles? h source.label]
      rfl
  simp only [checkSource]
  split
  · split
    · unfold checkText
      split
      · exact hsettings _
      · rfl
    · rfl
  · rfl

end Checker

end Hooks

/-! ### Runs -/

/-- The title of a section is fixed, and its path and all that is shown of its diagnostics, apart from
messages, are texts with a property. -/
structure Section.Shows (p : String → Prop) (s : Section) : Prop where
  title : s.title ∈ ["agents", "manifest", "hooks: global", "hooks: project"]
  path : ∀ path ∈ s.path, p path.text
  outcome : s.outcome.Shows p

namespace CommandLine

open Preflight.Hooks

variable {env : Environment} {root : Path} {config : Config} {task : Task} {report : Report}

/-- The texts that the reports on a task may show as they are, apart from those that messages quote. -/
inductive IsShown (env : Environment) (root : Path) (config : Config) (task : Task) : String → Prop
  /-- A field that a rule of its own is about. -/
  | field {field : String} : field ∈ Agents.documentFields ++ settingsFields →
    IsShown env root config task field
  /-- A field that is required of descriptors. -/
  | required {options : Agents.Options} {field : String} : options ∈ task.descriptors? →
    field ∈ config.agents.requiredFields → IsShown env root config task field
  /-- The key of the manifest. -/
  | key {options : Agents.Options} : options ∈ task.descriptors? →
    IsShown env root config task config.manifest.key
  /-- The directory of descriptors. -/
  | directory {options : Agents.Options} : options ∈ task.descriptors? →
    IsShown env root config task (Agents.dirIn root config.agents options).text
  /-- The name of a descriptor file. -/
  | descriptor {options : Agents.Options} {inventory : Inventory} {name : String} :
    options ∈ task.descriptors? →
    Inventory.scan env.files (Agents.dirIn root config.agents options) config.agents.suffix =
      .ok inventory →
    name ∈ inventory.names → IsShown env root config task name
  /-- The path of the manifest. -/
  | manifest {options : Agents.Options} : options ∈ task.descriptors? →
    IsShown env root config task (Manifest.pathIn root config.manifest options.manifest).text
  /-- The path of settings. -/
  | settings {selection : Selection} {source : Source} : selection ∈ task.selection? →
    source ∈ Hooks.sources config.hooks (env.resolver root) selection →
    IsShown env root config task source.path.text
  /-- The name of a lifecycle in settings. -/
  | lifecycle {source : Source} {settings : Value} {name : String} :
    HasSettings env root config task source settings → name ∈ lifecycleNames settings →
    IsShown env root config task name

/-- The sections of a run over descriptors show only what the run may show. -/
theorem shows_run (hfiles : env.files.WellNamed) {options : Agents.Options}
    (hoptions : options ∈ task.descriptors?) {run : Agents.Run}
    (h : Agents.run env.files root config options = .ok run) :
    ∀ s ∈ agentSections run, s.Shows (IsShown env root config task) := by
  obtain ⟨inventory, hscan, houtcome, hmanifest⟩ := Agents.exists_of_run_eq_ok h
  have hnames : ∀ name ∈ inventory.names, IsShown env root config task name :=
    fun name hname => .descriptor hoptions hscan hname
  have hdescriptors : run.outcome.Shows (IsShown env root config task) := by
    obtain ⟨note, hnote, hcompare⟩ := Agents.exists_note env.files root config options inventory
    rw [houtcome, hcompare]
    refine .append (Outcome.shows_concat (List.forall_mem_map.2 fun name hname => ?_))
      (Outcome.shows_ofOption fun d hd => ?_)
    · have hisName := (Inventory.isFileName_of_scan hfiles hscan hname).toIsName
      apply Agents.shows_checkFile (fun field hfield => .required hoptions hfield)
        (fun field hfield => .field (List.mem_append_left _ hfield))
      rw [Inventory.pathOf, Agents.labelOf_join_name inventory.dir hisName]
      exact hnames name hname
    · rw [(hnote d hd).location]
      exact (Location.shows_ofSource (by decide)).onPath _
  rw [agentSections, List.forall_mem_cons]
  constructor
  · refine ⟨List.mem_cons_self, ?_, hdescriptors⟩
    rintro _ ⟨rfl⟩
    rw [Agents.dir_of_run_eq_ok h]
    exact .directory hoptions
  · intro s hs
    obtain ⟨m, hm, rfl⟩ := Option.map_eq_some_iff.1 (Option.mem_toList.1 hs)
    have hshows := Agents.shows_compareManifest (p := IsShown env root config task)
      (.manifest hoptions) (.key hoptions) hnames (hmanifest.symm.trans hm)
    refine ⟨List.mem_cons_of_mem _ List.mem_cons_self, ?_, hshows.2⟩
    rintro _ ⟨rfl⟩
    rw [hshows.1]
    exact .manifest hoptions

/-- The section of a settings file shows only what the run may show. -/
theorem shows_hookSection {selection : Selection} (hselection : selection ∈ task.selection?)
    {source : Source} (hsource : source ∈ Hooks.sources config.hooks (env.resolver root) selection) :
    (hookSection ((env.checker root config).checkSource source)).Shows
      (IsShown env root config task) := by
  have hlabel : source.label = "global" ∨ source.label = "project" := by
    rcases List.mem_append.1 hsource with h | h
    · split at h
      · exact .inl (List.mem_singleton.1 h ▸ rfl)
      · cases h
    · split at h
      · exact .inr (List.mem_singleton.1 h ▸ rfl)
      · cases h
  refine ⟨?_, ?_, ?_⟩
  · have htitle : s!"hooks: {source.label}" ∈
        ["agents", "manifest", "hooks: global", "hooks: project"] := by
      rcases hlabel with h | h <;> rw [h] <;> decide
    rwa [hookSection, (env.checker root config).label_checkSource]
  · rintro _ ⟨rfl⟩
    exact .settings hselection hsource
  · apply (env.checker root config).shows_checkSource
    · exact fun field hfield => .field (List.mem_append_right _ hfield)
    · rcases hlabel with h | h <;> rw [h] <;> decide
    · intro text settings htext hsettings name hname
      exact .lifecycle ⟨⟨selection, hselection, hsource⟩, text, htext, hsettings⟩ hname

/-- All that a report shows as it is are texts that the task accounts for. -/
theorem shows_of_mem_sections (hfiles : env.files.WellNamed)
    (h : perform env root config task = .ok (.report report)) {s : Section}
    (hs : s ∈ report.sections) : s.Shows (IsShown env root config task) := by
  rcases (mem_sections_iff h s).1 hs with
    ⟨options, hoptions, run, hrun, hmem⟩ | ⟨selection, hselection, source, hsource, rfl⟩
  · exact shows_run hfiles hoptions hrun s hmem
  · exact shows_hookSection hselection hsource

end CommandLine

end Preflight
