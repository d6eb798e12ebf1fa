import Preflight.Agents.Batch
import Preflight.Config.Reader
import Preflight.Hooks.Source
import Preflight.Log.Basic

/-!
# What the log is told

Each step of a check tells the log what it looks at before it does so, and warns if
a document cannot be read. The functions below follow the steps in their order. A
check goes on after a warning, and its result never depends on the log.
-/

set_option autoImplicit false

namespace Preflight

open Preflight.Json (Value)

/-- A warning that a document cannot be read, unless it can. -/
def FileTree.readRecords (t : FileTree) (path : Path) : List LogRecord :=
  match t.readText path with
  | .ok _ => []
  | .error e => [.warning s!"could not read {path.text}: {e.message}"]

/-! ### Configurations -/

/-- What is told while a configuration is loaded, if it can be. -/
def Config.records (t : FileTree) (root : Path) : Option Path → List LogRecord
  | some path => [.detail s!"loaded configuration from {(root.join path).text}"]
  | none =>
    let path := root.join ⟨fileName⟩
    if t.isFile path then [.detail s!"loaded configuration from {path.text}"]
    else [.detail s!"no {fileName} at {root.text}, using defaults"]

/-! ### Descriptors -/

namespace Agents

/-- What is told about the files of an inventory. -/
def fileRecords (t : FileTree) (inventory : Inventory) : List LogRecord :=
  .detail s!"validating {inventory.size} descriptors in {inventory.dir.text}" ::
    inventory.names.flatMap fun name =>
      .detail s!"descriptor {name}" :: t.readRecords (inventory.pathOf name)

/-- What is told about the manifest. -/
def manifestRecords (t : FileTree) (root : Path) (config : Config) (options : Options)
    (inventory : Inventory) : List LogRecord :=
  if options.skipManifest then []
  else
    let path := Manifest.pathIn root config.manifest options.manifest
    match Manifest.load t root config.manifest options.manifest with
    | .error _ => []
    | .ok none =>
      if t.isFile path then
        [.detail s!"manifest {path.text} has no '{config.manifest.key}' key"]
      else [.detail s!"no manifest at {path.text}"]
    | .ok (some m) =>
      [.detail s!"cross-checking {m.entries.length} manifest entries against {inventory.size} files"]

/-- What is told while the descriptors of a project are checked, if their directory can be read. -/
def records (t : FileTree) (root : Path) (config : Config) (options : Options) : List LogRecord :=
  match Inventory.scan t (dirIn root config.agents options) config.agents.suffix with
  | .error _ => []
  | .ok inventory => fileRecords t inventory ++ manifestRecords t root config options inventory

end Agents

/-! ### Hooks -/

namespace Hooks

namespace Checker

/-- What is told about the command of an action: the script that it names, if it names one. -/
def commandRecords (c : Checker) : Option Value → List LogRecord
  | some (.string command) =>
    match (Command.Invocation.ofCommand command c.rules.interpreters).scriptPath? with
    | some script => [.detail s!"{script} -> {(c.resolver.resolve script).text}"]
    | none => []
  | _ => []

def actionRecords (c : Checker) (action : Value) : List LogRecord :=
  match action.members? with
  | some members => c.commandRecords (members.find? "command")
  | none => []

/-- What is told about an entry: what is told about its actions. -/
def entryRecords (c : Checker) (entry : Value) : List LogRecord :=
  match entry.members? with
  | none => []
  | some members =>
    match members.find? "hooks" with
    | some (.array actions) => actions.flatMap c.actionRecords
    | _ => []

def lifecycleRecords (c : Checker) (label lifecycle : String) (value : Value) : List LogRecord :=
  .detail s!"{label}: lifecycle {lifecycle}" ::
    match value with
    | .array entries => if c.rules.isLifecycle lifecycle then entries.flatMap c.entryRecords else []
    | _ => []

/-- What is told about a settings document. -/
def settingsRecords (c : Checker) (label : String) (settings : Value) : List LogRecord :=
  match settings.members? with
  | none => []
  | some members =>
    match (members.find? "hooks").bind Value.members? with
    | none => []
    | some lifecycles => lifecycles.entries.flatMap fun e => c.lifecycleRecords label e.1 e.2

/-- What is told about the text of a settings document. -/
def textRecords (c : Checker) (label text : String) : List LogRecord :=
  match Value.ofText text with
  | .ok settings => c.settingsRecords label settings
  | .error _ => []

def sourceRecords (c : Checker) (source : Source) : List LogRecord :=
  .detail s!"checking {source.label} hooks at {source.path.text}" ::
    if c.files.contains source.path then
      match c.files.readText source.path with
      | .ok text => c.textRecords source.label text
      | .error _ => c.files.readRecords source.path
    else []

end Checker

/-- What is told while the sources of hooks that a selection means are checked. -/
def records (t : FileTree) (config : Config) (resolver : Resolver) (s : Selection) :
    List LogRecord :=
  (sources config.hooks resolver s).flatMap (Checker.mk config.hooks resolver t).sourceRecords

end Hooks

end Preflight
