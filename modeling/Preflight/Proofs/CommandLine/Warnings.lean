import Preflight.CommandLine.Lookups
import Preflight.Proofs.CommandLine.Sections

/-!
# Warnings of the log

A run warns the log of the documents that it cannot read, in the order in which it comes
to them: the descriptors by name and then the settings (`warnings_records`). It warns of
nothing else. A document that cannot be read is an error in the report too, so a run that
succeeds does not warn (`unreadable?_eq_none_of_forall`).
-/

set_option autoImplicit false

namespace Preflight

open Preflight.Json (Value)

/-! ### Warnings among records -/

namespace LogRecord

/-- Whether a record is a warning. -/
def isWarning : LogRecord → Bool
  | .warning _ => true
  | .detail _ => false

/-- A warning is one. -/
@[simp] theorem isWarning_warning (message : String) : (warning message).isWarning = true := rfl

/-- A detail is no warning. -/
@[simp] theorem isWarning_detail (message : String) : (detail message).isWarning = false := rfl

/-- At the level that is used if no other is asked for, exactly the warnings are written. -/
theorem isAdmitted_defaultLevel : isAdmitted Logger.defaultLevel = isWarning := by
  funext r
  cases r with
  | warning message =>
    exact (by decide : ["warn", "info", "debug", "trace"].contains Logger.defaultLevel = true)
  | detail message => exact (by decide : ["debug", "trace"].contains Logger.defaultLevel = false)

end LogRecord

/-- The warnings in a list of records. -/
def warnings (records : List LogRecord) : List LogRecord :=
  records.filter LogRecord.isWarning

/-- The warning that a document cannot be read, if it cannot. -/
def unreadable? (t : FileTree) (path : Path) : Option LogRecord :=
  match t.readText path with
  | .ok _ => none
  | .error e => some (.warning ("could not read " ++ path.text ++ ": " ++ e.message))

/-- Reading a document tells of nothing but a failure. -/
theorem readRecords_eq (t : FileTree) (path : Path) :
    t.readRecords path = (unreadable? t path).toList := by
  unfold FileTree.readRecords unreadable?
  cases t.readText path <;> rfl

/-- All that reading tells is a warning. -/
theorem warnings_readRecords (t : FileTree) (path : Path) :
    warnings (t.readRecords path) = (unreadable? t path).toList := by
  rw [readRecords_eq]
  unfold warnings unreadable?
  cases t.readText path <;> rfl

section

variable (r r' : List LogRecord) (message : String)

/-- Without records there are no warnings. -/
@[simp] theorem warnings_nil : warnings [] = [] := rfl

/-- A detail adds no warning. -/
@[simp] theorem warnings_cons_detail : warnings (.detail message :: r) = warnings r := rfl

/-- The warnings of two runs of records are those of the one and then those of the other. -/
@[simp] theorem warnings_append : warnings (r ++ r') = warnings r ++ warnings r' :=
  List.filter_append ..

/-- The warnings of the parts are put together in the order of the parts. -/
theorem warnings_flatMap {α : Type} (l : List α) (f : α → List LogRecord) :
    warnings (l.flatMap f) = l.flatMap fun a => warnings (f a) :=
  List.filter_flatMap ..

/-- Parts that warn of nothing do not warn together. -/
theorem warnings_flatMap_eq_nil {α : Type} {l : List α} {f : α → List LogRecord}
    (h : ∀ a, warnings (f a) = []) : warnings (l.flatMap f) = [] := by
  simp [warnings_flatMap, h]

end

/-! ### Each kind of document -/

/-- Loading a configuration warns of nothing. -/
theorem Config.warnings_records (t : FileTree) (root : Path) (explicit : Option Path) :
    warnings (Config.records t root explicit) = [] := by
  unfold Config.records
  split
  · rfl
  · dsimp only
    split <;> rfl

namespace Agents

variable {t : FileTree} {root : Path} {config : Config} {options : Options}

/-- The warnings about the files of an inventory are those of reading each of them. -/
theorem warnings_fileRecords (inventory : Inventory) :
    warnings (fileRecords t inventory) =
      (inventory.names.map inventory.pathOf).filterMap (unreadable? t) := by
  unfold fileRecords
  simp only [warnings_cons_detail, warnings_flatMap, warnings_readRecords, List.filterMap_map,
    ← List.filterMap_eq_flatMap_toList]
  rfl

/-- The manifest is not warned about: one that cannot be read is an error of its own. -/
theorem warnings_manifestRecords (inventory : Inventory) :
    warnings (manifestRecords t root config options inventory) = [] := by
  unfold manifestRecords
  split
  · rfl
  · dsimp only
    split
    · rfl
    · split <;> rfl
    · rfl

/-- The warnings of a check of descriptors are those of reading each of them. -/
theorem warnings_records :
    warnings (records t root config options) =
      (CommandLine.descriptorPaths t (dirIn root config.agents options)
        config.agents.suffix).filterMap (unreadable? t) := by
  unfold records CommandLine.descriptorPaths
  cases Inventory.scan t (dirIn root config.agents options) config.agents.suffix with
  | error e => rfl
  | ok inventory =>
    dsimp only
    rw [warnings_append, warnings_fileRecords, warnings_manifestRecords, List.append_nil]

end Agents

namespace Hooks

namespace Checker

variable (c : Checker)

/-- The scripts of an action are not read, so there is nothing to warn of. -/
theorem warnings_actionRecords (action : Value) : warnings (c.actionRecords action) = [] := by
  unfold actionRecords commandRecords
  split
  · split
    · split <;> rfl
    · rfl
  · rfl

/-- An entry warns of nothing because its actions do not. -/
theorem warnings_entryRecords (entry : Value) : warnings (c.entryRecords entry) = [] := by
  unfold entryRecords
  split
  · rfl
  · split
    · exact warnings_flatMap_eq_nil c.warnings_actionRecords
    · rfl

/-- A lifecycle warns of nothing because its entries do not. -/
theorem warnings_lifecycleRecords (label lifecycle : String) (value : Value) :
    warnings (c.lifecycleRecords label lifecycle value) = [] := by
  unfold lifecycleRecords
  rw [warnings_cons_detail]
  split
  · split
    · exact warnings_flatMap_eq_nil c.warnings_entryRecords
    · rfl
  · rfl

/-- What settings say is not warned about. -/
theorem warnings_textRecords (label text : String) : warnings (c.textRecords label text) = [] := by
  unfold textRecords settingsRecords
  split
  · split
    · rfl
    · split
      · rfl
      · exact warnings_flatMap_eq_nil fun e => c.warnings_lifecycleRecords label e.1 e.2
  · rfl

/-- Settings that exist but cannot be read are warned about. -/
theorem warnings_sourceRecords (source : Source) :
    warnings (c.sourceRecords source) =
      if c.files.contains source.path then (unreadable? c.files source.path).toList else [] := by
  unfold sourceRecords
  rw [warnings_cons_detail]
  split
  · cases htext : c.files.readText source.path with
    | ok text =>
      dsimp only
      rw [c.warnings_textRecords, unreadable?, htext]
      rfl
    | error e =>
      dsimp only
      exact warnings_readRecords c.files source.path
  · rfl

end Checker

/-- The warnings of a check of hooks are those of reading the settings that exist. -/
theorem warnings_records (t : FileTree) (config : Config) (resolver : Resolver) (s : Selection) :
    warnings (records t config resolver s) =
      (((sources config.hooks resolver s).map Source.path).filter t.contains).filterMap
        (unreadable? t) := by
  unfold records
  simp only [warnings_flatMap, Checker.warnings_sourceRecords]
  induction sources config.hooks resolver s with
  | nil => rfl
  | cons source sources ih =>
    rw [List.flatMap_cons, ih, List.map_cons, List.filter_cons]
    cases t.contains source.path with
    | false => rfl
    | true => cases h : unreadable? t source.path <;> simp [h]

end Hooks

/-! ### Runs -/

namespace CommandLine

variable {env : Environment} {root : Path} {config : Config} {task : Task}

/-- The documents that a task is to read: the descriptors in the order of their names and then the
settings that exist. -/
def documents (env : Environment) (root : Path) (config : Config) (task : Task) : List Path :=
  (task.descriptors?.toList.flatMap fun options =>
    descriptorPaths env.files (Agents.dirIn root config.agents options) config.agents.suffix) ++
  task.selection?.toList.flatMap fun selection =>
    ((Hooks.sources config.hooks (env.resolver root) selection).map Hooks.Source.path).filter
      env.files.contains

/-- What is told while a task is done warns of the documents that cannot be read. -/
theorem warnings_performRecords {answer : Answer} (h : perform env root config task = .ok answer) :
    warnings (performRecords env root config task) =
      (documents env root config task).filterMap (unreadable? env.files) := by
  cases task with
  | config => rfl
  | agents options =>
    simp [performRecords, documents, Task.descriptors?, Task.selection?, Agents.warnings_records]
  | hooks selection =>
    simp [performRecords, documents, Task.descriptors?, Task.selection?, Hooks.warnings_records]
  | all =>
    cases hreport : reportAgents env root config .default with
    | error e =>
      rw [perform, hreport] at h
      cases h
    | ok report =>
      simp [performRecords, documents, Task.descriptors?, Task.selection?, hreport, Except.isOk,
        Except.toBool, Agents.warnings_records, Hooks.warnings_records]

/-- The warnings of a request are those about the documents that its task is to read. -/
theorem warnings_records {request : Request} {answer : Answer}
    (hroot : env.root request.root = .ok root)
    (hconfig : Config.load env.files root request.config = .ok config)
    (h : perform env root config request.task = .ok answer) :
    warnings (records env request) =
      (documents env root config request.task).filterMap (unreadable? env.files) := by
  unfold records
  simp only [hroot, hconfig]
  rw [warnings_append, Config.warnings_records, List.nil_append, warnings_cons_detail,
    warnings_performRecords h]

/-- A descriptor that cannot be read is an error. -/
theorem exists_error_of_unreadable_descriptor (rules : AgentRules) {path : Path} {e : FileError}
    (h : env.files.readText path = .error e) :
    ∃ d ∈ (Agents.checkFile env.files path rules).diagnostics, d.severity = .error := by
  unfold Agents.checkFile
  simp only [h]
  exact ⟨_, List.mem_singleton_self _, rfl⟩

/-- Settings that exist but cannot be read are an error. -/
theorem exists_error_of_unreadable_settings {c : Hooks.Checker} {source : Hooks.Source}
    {e : FileError} (hcontains : c.files.contains source.path = true)
    (h : c.files.readText source.path = .error e) :
    ∃ d ∈ (c.checkSource source).outcome.diagnostics, d.severity = .error := by
  unfold Hooks.Checker.checkSource
  simp only [hcontains, h, if_true]
  exact ⟨_, List.mem_singleton_self _, rfl⟩

/-- All documents can be read if the report on them has no error. -/
theorem unreadable?_eq_none_of_forall {report : Report}
    (h : perform env root config task = .ok (.report report))
    (hclean : ∀ s ∈ report.sections, ∀ d ∈ s.outcome.diagnostics, d.severity ≠ .error) :
    (documents env root config task).filterMap (unreadable? env.files) = [] := by
  rw [List.filterMap_eq_nil_iff]
  intro path hpath
  cases htext : env.files.readText path with
  | ok text => rw [unreadable?, htext]
  | error e =>
    exfalso
    rcases List.mem_append.1 hpath with hdescriptor | hsettings
    · obtain ⟨options, hoptions, hmem⟩ := List.mem_flatMap.1 hdescriptor
      obtain ⟨run, hrun, hsections⟩ := exists_run_of_descriptors? h (Option.mem_toList.1 hoptions)
      obtain ⟨inventory, hscan, houtcome, -⟩ := Agents.exists_of_run_eq_ok hrun
      rw [descriptorPaths, hscan] at hmem
      obtain ⟨name, hname, rfl⟩ := List.mem_map.1 hmem
      obtain ⟨d, hd, herror⟩ :=
        exists_error_of_unreadable_descriptor config.agents htext
      refine hclean _ (hsections _ List.mem_cons_self) d ?_ herror
      rw [houtcome]
      exact List.mem_append_left _ (List.mem_flatMap.2 ⟨_, List.mem_map_of_mem hname, hd⟩)
    · obtain ⟨selection, hselection, hmem⟩ := List.mem_flatMap.1 hsettings
      obtain ⟨hmem, hcontains⟩ := List.mem_filter.1 hmem
      obtain ⟨source, hsource, rfl⟩ := List.mem_map.1 hmem
      obtain ⟨d, hd, herror⟩ :=
        exists_error_of_unreadable_settings (c := env.checker root config) hcontains htext
      exact hclean _ (hookSection_mem h (Option.mem_toList.1 hselection) hsource) d hd herror

end CommandLine

end Preflight
