import Preflight.Proofs.Agents.Complaints
import Preflight.Proofs.CommandLine.Headings
import Preflight.Proofs.FileTree.Reading
import Preflight.Proofs.Hooks.Complaints

/-!
# Reports give advice

Whatever a run finds fault with, its report gives the advice that is kept for this fault,
whatever the names, paths and numbers in the message of the error are (`run_advises`). The
faults are those of the descriptors, of the manifest and of the settings that the task
covers. One rule is without advice in one of its two cases: an entry without actions is
advised on, but one with something else than a list for its actions is not.
-/

set_option autoImplicit false

namespace Preflight

open Preflight.Json (Value)

/-! ### Texts that are not JSON -/

open Preflight.Text (occurs_append_left)

/-- A manifest whose text is not JSON is reported as such. -/
theorem Manifest.complains_of_notJson {t : FileTree} {root : Path} {config : Config}
    {options : Agents.Options} (inventory : Inventory) {text : String} {failure : Json.Failure}
    (hskip : options.skipManifest = false)
    (htext : t.readText (pathIn root config.manifest options.manifest) = .ok text)
    (hjson : Value.ofText text = .error failure) :
    ∃ m, (Agents.compareManifest t root config options inventory).1 = some m ∧
      m.outcome.Complains "invalid JSON" := by
  have hfile := FileTree.isFile_of_readText htext
  simp only [Agents.compareManifest, load, ofText, hskip, hfile, htext, hjson, if_true,
    Bool.false_eq_true, if_false]
  refine ⟨_, rfl, Outcome.complains_single ?_⟩
  simp only [String.append_assoc]
  exact occurs_append_left (by decide +kernel) _

/-- A settings file whose text is not JSON is reported as such. -/
theorem Hooks.Checker.complains_of_notJson {c : Checker} {source : Source} {text : String}
    {failure : Json.Failure} (htext : c.files.readText source.path = .ok text)
    (hjson : Value.ofText text = .error failure) :
    (c.checkSource source).outcome.Complains "invalid JSON" := by
  have hfile := FileTree.contains_of_readText htext
  simp only [checkSource, checkText, hfile, htext, hjson, if_true]
  refine Outcome.complains_single ?_
  exact occurs_append_left (by decide +kernel) _

/-- What is said about a settings file that can be read is what is said about its document. -/
theorem Hooks.Checker.outcome_checkSource (c : Checker) {source : Source} {text : String}
    {settings : Value} (htext : c.files.readText source.path = .ok text)
    (hjson : Value.ofText text = .ok settings) :
    (c.checkSource source).outcome = (c.checkSettings source.label settings).outcome := by
  have hfile := FileTree.contains_of_readText htext
  simp only [checkSource, checkText, hfile, htext, hjson, if_true]

/-! ### Runs -/

namespace CommandLine

open Preflight.Hooks
open Preflight.Hooks.Checker (entryPlace)

variable {env : Environment} {root : Path} {config : Config} {task : Task} {report : Report}

/-- A source of hooks that a task checks holds these settings. -/
structure HasSettings (env : Environment) (root : Path) (config : Config) (task : Task)
    (source : Source) (settings : Value) : Prop where
  source_mem : ∃ selection ∈ task.selection?,
    source ∈ Hooks.sources config.hooks (env.resolver root) selection
  read : ∃ text, env.files.readText source.path = .ok text ∧ Value.ofText text = .ok settings

/-- What a task finds fault with, with the phrase of the advice. -/
inductive Fault (env : Environment) (root : Path) (config : Config) (task : Task) : String → Prop
  /-- One of the descriptors is faulted. -/
  | descriptor {options : Agents.Options} {inventory : Inventory} {name phrase : String} :
    options ∈ task.descriptors? →
    Inventory.scan env.files (Agents.dirIn root config.agents options) config.agents.suffix =
      .ok inventory →
    name ∈ inventory.names →
    Agents.FileFault env.files config.agents (inventory.pathOf name) phrase →
    Fault env root config task phrase
  /-- The text of the manifest is not JSON. -/
  | manifestText {options : Agents.Options} {text : String} {failure : Json.Failure} :
    options ∈ task.descriptors? → options.skipManifest = false →
    env.files.readText (Manifest.pathIn root config.manifest options.manifest) = .ok text →
    Value.ofText text = .error failure → Fault env root config task "invalid JSON"
  /-- The manifest is faulted. -/
  | manifest {options : Agents.Options} {inventory : Inventory} {m : Manifest} {phrase : String} :
    options ∈ task.descriptors? → options.skipManifest = false →
    Manifest.load env.files root config.manifest options.manifest = .ok (some m) →
    Inventory.scan env.files (Agents.dirIn root config.agents options) config.agents.suffix =
      .ok inventory →
    m.ManifestFault inventory phrase → Fault env root config task phrase
  /-- The text of settings is not JSON. -/
  | settingsText {selection : Selection} {source : Source} {text : String}
    {failure : Json.Failure} : selection ∈ task.selection? →
    source ∈ Hooks.sources config.hooks (env.resolver root) selection →
    env.files.readText source.path = .ok text → Value.ofText text = .error failure →
    Fault env root config task "invalid JSON"
  /-- Settings are faulted. -/
  | settings {source : Source} {settings : Value} {phrase : String} :
    HasSettings env root config task source settings →
    (env.checker root config).SettingsFault settings phrase → Fault env root config task phrase

/-- There is advice for every fault. -/
theorem Fault.phrase_mem {phrase : String} (h : Fault env root config task phrase) :
    phrase ∈ Advice.table.map Advice.phrase := by
  cases h with
  | descriptor _ _ _ h => cases h <;> simp [Advice.table]
  | manifestText => simp [Advice.table]
  | manifest _ _ _ _ h => cases h <;> simp [Advice.table]
  | settingsText => simp [Advice.table]
  | settings _ h =>
    cases h with
    | action _ _ _ h => cases h <;> simp [Advice.table]
    | _ => simp [Advice.table]

/-- What is compared with the manifest has a section beside that on the descriptors. -/
theorem manifestSection_mem {run : Agents.Run} {m : Agents.ManifestRun} (h : run.manifest = some m) :
    ⟨Manifest.source, some m.path, true, m.outcome⟩ ∈ agentSections run := by
  simp [agentSections, h]

/-- Some section complains about a fault. -/
theorem Fault.exists_complains {phrase : String} (h : Fault env root config task phrase)
    (hperform : perform env root config task = .ok (.report report)) :
    ∃ s ∈ report.sections, s.outcome.Complains phrase := by
  cases h with
  | @descriptor options inventory name phrase hoptions hscan hname hfault =>
    obtain ⟨run, hrun, hsections⟩ := exists_run_of_descriptors? hperform hoptions
    obtain ⟨inventory', hscan', houtcome, -⟩ := Agents.exists_of_run_eq_ok hrun
    cases hscan.symm.trans hscan'
    have hfiles : (Agents.checkFiles env.files inventory config.agents).Complains phrase :=
      (Agents.complains_of_fileFault hfault).concat (List.mem_map_of_mem hname)
    refine ⟨_, hsections _ List.mem_cons_self, ?_⟩
    rw [houtcome]
    exact hfiles.append_left _
  | manifestText hoptions hskip htext hjson =>
    obtain ⟨run, hrun, hsections⟩ := exists_run_of_descriptors? hperform hoptions
    obtain ⟨inventory, -, -, hmanifest⟩ := Agents.exists_of_run_eq_ok hrun
    obtain ⟨m, hm, hcomplains⟩ :=
      Manifest.complains_of_notJson inventory hskip htext hjson
    exact ⟨_, hsections _ (manifestSection_mem (hmanifest.trans hm)), hcomplains⟩
  | manifest hoptions hskip hload hscan hfault =>
    obtain ⟨run, hrun, hsections⟩ := exists_run_of_descriptors? hperform hoptions
    obtain ⟨inventory', hscan', -, hmanifest⟩ := Agents.exists_of_run_eq_ok hrun
    cases hscan.symm.trans hscan'
    simp only [Agents.compareManifest, hskip, hload, Bool.false_eq_true, if_false] at hmanifest
    exact ⟨_, hsections _ (manifestSection_mem hmanifest), Manifest.complains_of_manifestFault hfault⟩
  | settingsText hselection hsource htext hjson =>
    exact ⟨_, hookSection_mem hperform hselection hsource, Checker.complains_of_notJson htext hjson⟩
  | settings hsettings hfault =>
    obtain ⟨selection, hselection, hsource⟩ := hsettings.source_mem
    obtain ⟨text, htext, hjson⟩ := hsettings.read
    refine ⟨_, hookSection_mem hperform hselection hsource, ?_⟩
    dsimp only [hookSection]
    rw [(env.checker root config).outcome_checkSource htext hjson]
    exact Checker.complains_of_settingsFault hfault _

/-- **Advice for every fault.** Whatever a run finds fault with, its report gives the advice that is
kept for it. Actions that are no list are reported as an error for which no advice is kept. -/
theorem run_advises {arguments : List String} {request : Request}
    (hrequest : Request.ofArguments arguments = .ok request)
    (hroot : env.root request.root = .ok root)
    (hconfig : Config.load env.files root request.config = .ok config)
    (hreport : Reports env arguments report) :
    (∀ phrase, Fault env root config request.task phrase → report.Advises phrase) ∧
    ∀ source settings lifecycle entry value i,
      HasSettings env root config request.task source settings →
      config.hooks.isLifecycle lifecycle = true →
      (entriesOf settings lifecycle)[i]? = some entry → entry.member? "hooks" = some value →
      (∀ actions, value ≠ .array actions) →
      ∃ s ∈ report.sections, ∃ d ∈ s.outcome.diagnostics, d.isError = true ∧
        d.location = (entryPlace source.label lifecycle i).atField "hooks" ∧
        ∀ a ∈ Advice.table, a.appliesTo d = false := by
  have hperform : perform env root config request.task = .ok (.report report) :=
    (answer_eq hroot hconfig).symm.trans (hreport.answer_eq hrequest)
  constructor
  · intro phrase hfault
    obtain ⟨s, hs, hcomplains⟩ := hfault.exists_complains hperform
    exact Report.advises_of_complains hs hcomplains hfault.phrase_mem
  · intro source settings lifecycle entry value i hsettings hknown hentry hhooks hvalue
    obtain ⟨selection, hselection, hsource⟩ := hsettings.source_mem
    obtain ⟨text, htext, hjson⟩ := hsettings.read
    obtain ⟨d, hd, hplace⟩ := (env.checker root config).exists_error_of_wrongActions hknown hentry
      hhooks hvalue source.label
    refine ⟨_, hookSection_mem hperform hselection hsource, d, ?_, hplace⟩
    dsimp only [hookSection]
    rwa [(env.checker root config).outcome_checkSource htext hjson]

/-- Settings with an object for the actions of one entry and, under another lifecycle, with a script
that is not there. -/
def wrongActions : String :=
  "\x7b\"hooks\": \x7b\"Stop\": [\x7b\"hooks\": \x7b\x7d\x7d], " ++
    "\"PreCompact\": [\x7b\"hooks\": [\x7b\"type\": \"command\", \"command\": \"./gone.sh\"\x7d]\x7d]\x7d\x7d"

/-- A project that has nothing but settings. -/
def settingsOnly (text : String) : Environment where
  files := ⟨[(".claude", .directory [("settings.json", .file (some text))])]⟩
  vars := .empty
  home? := none
  workingDirectory := ⟨"/"⟩
  screen := false
  isText := fun _ => true

/-- The settings with actions that are no list are the document that a run of the project checks. -/
theorem hasSettings_wrongActions :
    HasSettings (settingsOnly wrongActions) ⟨"/"⟩ .default (.hooks ⟨false, true⟩)
      ⟨"project", ⟨"/.claude/settings.json"⟩⟩
      (.object [("hooks", .object
        [("Stop", .array [.object [("hooks", .object [])]]),
          ("PreCompact", .array [.object [("hooks", .array
            [.object [("type", .string "command"), ("command", .string "./gone.sh")]])]])])]) where
  source_mem := ⟨_, rfl, by decide +kernel⟩
  read := ⟨wrongActions, by decide +kernel, by cbv⟩

/-- The arguments of the example ask for the project's hooks alone, as a text. -/
theorem ofArguments_projectHooks : Request.ofArguments ["--root", "/", "hooks", "--project"] =
    .ok ⟨some ⟨"/"⟩, none, .text, false, .hooks ⟨false, true⟩⟩ := by
  decide +kernel

/-- The missing script is advised on and the object is not. -/
theorem run_advises_of_wrongActions :
    ∃ report, Reports (settingsOnly wrongActions) ["--root", "/", "hooks", "--project"] report ∧
      report.Advises "script file not found" ∧
      ∃ s ∈ report.sections, ∃ d ∈ s.outcome.diagnostics, d.isError = true ∧
        d.location = (entryPlace "project" "Stop" 0).atField "hooks" ∧
        ∀ a ∈ Advice.table, a.appliesTo d = false := by
  have hroot : (settingsOnly wrongActions).root (some ⟨"/"⟩) = .ok ⟨"/"⟩ := by decide +kernel
  have hconfig : Config.load (settingsOnly wrongActions).files ⟨"/"⟩ none = .ok .default := by
    decide +kernel
  have hreport := reports_of_answer ofArguments_projectHooks (answer_eq hroot hconfig)
  obtain ⟨hadvises, hwrong⟩ := run_advises ofArguments_projectHooks hroot hconfig hreport
  refine ⟨_, hreport, hadvises _ (.settings hasSettings_wrongActions ?_), ?_⟩
  · have hentry := List.mem_cons_self (a := Value.object [("hooks", .array
      [.object [("type", .string "command"), ("command", .string "./gone.sh")]])]) (l := [])
    refine .action (by decide +kernel : Config.default.hooks.isLifecycle "PreCompact" = true)
      hentry List.mem_cons_self ?_
    refine .script (by rfl : _ = some (Value.string "./gone.sh"))
      (by decide +kernel : _ = some "./gone.sh") (by decide +kernel)
  · exact hwrong _ _ "Stop" _ _ 0 hasSettings_wrongActions (by decide +kernel) rfl rfl
      fun _ h => nomatch h

/-- Settings with an object for the actions of an entry. -/
def objectActions : String :=
  "\x7b\"hooks\": \x7b\"Stop\": [\x7b\"hooks\": \x7b\x7d\x7d]\x7d\x7d"

/-- An entry with an object for its actions gives an error, but the advice on lists of actions is not
given. -/
theorem not_advises_of_objectActions :
    ∃ report, Reports (settingsOnly objectActions) ["--root", "/", "hooks", "--project"] report ∧
      report.outcome.errors.map Diagnostic.message =
        ["'hooks' must be a list of actions, found object"] ∧
      ¬report.Advises "'hooks' action list" := by
  have hroot : (settingsOnly objectActions).root (some ⟨"/"⟩) = .ok ⟨"/"⟩ := by decide +kernel
  have hconfig : Config.load (settingsOnly objectActions).files ⟨"/"⟩ none = .ok .default := by
    decide +kernel
  refine ⟨_, reports_of_answer ofArguments_projectHooks (answer_eq hroot hconfig), ?_, ?_⟩
  · decide +kernel
  · unfold Report.Advises
    decide +kernel

end CommandLine

end Preflight
