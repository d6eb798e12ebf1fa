import Preflight.CommandLine.Arguments
import Preflight.Config.Printer
import Preflight.Log.Records
import Preflight.Report.Json
import Preflight.Report.Render

/-!
# Runs of the command line

A run is a function of the arguments and of what the program can see: the files,
the variables, the home and the working directory, and whether it writes to a
screen. Its result is its exit status and what it writes, to the log among others.
How a report is written has no influence on the status and on the errors, unless it
cannot be written.

Arguments and variables are texts. A path need not be one: it is named by what is
shown for it, and what is shown does not tell whether its own bytes are UTF-8, so
this is asked for apart.
-/

set_option autoImplicit false

namespace Preflight.CommandLine

/-- What a run can see. -/
structure Environment where
  files : FileTree
  vars : Table String
  /-- The home directory of the user, if there is one. -/
  home? : Option Path
  workingDirectory : Path
  /-- Whether the report goes to a screen. -/
  screen : Bool
  /-- Whether a path is a text: whether its bytes are UTF-8. -/
  isText : Path → Bool

/-- The exit status of a run and what it writes: to the output, to the log, and after that to the error stream. -/
structure Result where
  status : Nat
  output : String
  records : List LogRecord
  errors : String
deriving Repr, DecidableEq

/-- All that a run leaves on the error stream: what a logger writes there, and its errors. -/
def Result.errorStream (r : Result) (logger : Logger) : String :=
  logger.write r.records ++ r.errors

namespace Environment

/-- What reports are written for. -/
def terminal (env : Environment) : Terminal :=
  ⟨Terminal.widthOf env.vars, Terminal.wantsColours env.vars env.screen⟩

def resolver (env : Environment) (root : Path) : Resolver :=
  let resolver := Resolver.ofVariables root env.vars
  match env.home? with
  | some home => resolver.withHome home
  | none => resolver

/-- The root of the project: the directory that is asked for or the working directory. -/
def root (env : Environment) (asked : Option Path) : Except RunError Path :=
  let path := asked.getD env.workingDirectory
  match env.files.canonical (env.workingDirectory.join path) with
  | .ok root => .ok root
  | .error e => .error (.rootMissing path e)

end Environment

/-! ### Reports -/

/-- A report with the result of checking descriptors. -/
def addAgents (r : Report) (run : Agents.Run) : Report :=
  let r := { r with descriptors := r.descriptors + run.documents }
  let r := r.push ⟨Agents.source, some run.dir, true, run.outcome⟩
  match run.manifest with
  | none => r
  | some m => r.push ⟨Manifest.source, some m.path, true, m.outcome⟩

def hookSection (s : Hooks.SourceReport) : Section :=
  ⟨s!"hooks: {s.label}", s.path, s.loaded, s.outcome⟩

/-- A report with the result of checking hooks. -/
def addHooks (r : Report) (run : Hooks.Run) : Report :=
  (run.sources.map hookSection).foldl Report.push
    { r with hookEntries := r.hookEntries + run.hooks }

/-- The report on the descriptors of a project. -/
def reportAgents (env : Environment) (root : Path) (config : Config) (options : Agents.Options) :
    Except RunError Report :=
  (Agents.run env.files root config options).map (addAgents .empty)

def reportHooks (env : Environment) (root : Path) (config : Config) (s : Hooks.Selection)
    (r : Report) : Report :=
  addHooks r (Hooks.run env.files config (env.resolver root) s)

/-! ### Runs -/

/-- What a request comes to: a text or a report. -/
inductive Answer where
  | text (text : String)
  | report (report : Report)
deriving Repr, DecidableEq

/-- Do what is asked for in a project. -/
def perform (env : Environment) (root : Path) (config : Config) :
    Task → Except RunError Answer
  | .config => .ok (.text config.toText)
  | .agents options => (reportAgents env root config options).map .report
  | .hooks selection => .ok (.report (reportHooks env root config selection .empty))
  | .all =>
    (reportAgents env root config .default).map fun r =>
      .report (reportHooks env root config .all r)

/-- What a request comes to. -/
def answer (env : Environment) (request : Request) : Except RunError Answer := do
  let root ← env.root request.root
  let config ← Config.load env.files root request.config
  perform env root config request.task

/-- What is told to the log while a task is done. Without descriptors the hooks are not looked at. -/
def performRecords (env : Environment) (root : Path) (config : Config) : Task → List LogRecord
  | .config => []
  | .agents options => Agents.records env.files root config options
  | .hooks selection => Hooks.records env.files config (env.resolver root) selection
  | .all =>
    Agents.records env.files root config .default ++
      if (reportAgents env root config .default).isOk then
        Hooks.records env.files config (env.resolver root) .all
      else []

/-- What a request tells the log. -/
def records (env : Environment) (request : Request) : List LogRecord :=
  match env.root request.root with
  | .error _ => []
  | .ok root =>
    match Config.load env.files root request.config with
    | .error _ => []
    | .ok config =>
      Config.records env.files root request.config ++
        .detail s!"root {root.text}" :: performRecords env root config request.task

/-- Write a report in the form that is asked for. -/
def writeReport (env : Environment) (format : Format) (verbose : Bool) (r : Report) :
    Except RunError String :=
  match format with
  | .text => .ok (r.render env.terminal verbose)
  | .json => (r.writeJson env.isText).map (· ++ "\n")

/-- The last line of a run without success. -/
def errorLine (e : RunError) : String :=
  s!"Error: {e.message}\n"

/-- The result of a report that is to be written: its errors are repeated, and any of them is a failure. A
report that cannot be written is a failure too, and nothing of it is seen. -/
def reportResult (records : List LogRecord) (r : Report) : Except RunError String → Result
  | .error e => ⟨1, "", records, errorLine e⟩
  | .ok text =>
    let outcome := r.outcome
    if outcome.hasErrors then
      let lines := String.join (r.errorLines.map (· ++ "\n"))
      ⟨1, text, records, lines ++ errorLine (.issues outcome.errorCount outcome.warningCount)⟩
    else ⟨0, text, records, ""⟩

def respond (env : Environment) (request : Request) : Result :=
  let records := records env request
  match answer env request with
  | .error e => ⟨1, "", records, errorLine e⟩
  | .ok (.text text) => ⟨0, text, records, ""⟩
  | .ok (.report r) =>
    reportResult records r (writeReport env request.format request.verbose r)

/-- The name and the version of the program. -/
def versionText : String := "agentlint 0.3.0\n"

/-- How the program is called, line by line. -/
def helpLines : List String :=
  ["Validate agent descriptors, plugin manifests and hook settings",
    "",
    "Usage: agentlint [OPTIONS] <COMMAND>",
    "",
    "Commands:",
    "  agents  Validate descriptor headers and cross-check the manifest",
    "  hooks   Validate hook settings (both sources unless one is selected)",
    "  all     Run every check",
    "  config  Print the effective configuration",
    "",
    "Options:",
    "  --root <ROOT>      Project root; relative paths resolve against it",
    "  --config <CONFIG>  Config file (agentlint.toml in the root when present)",
    "  --format <FORMAT>  Output format: text or json",
    "  -v, --verbose      Include informational notes in text output",
    "  -h, --help         Print help",
    "  -V, --version      Print version",
    "",
    "Options of agents: --dir <DIR>, --manifest <MANIFEST>, --no-manifest",
    "Options of hooks: --global, --project"]

/-- How the program is called. -/
def helpText : String :=
  String.join (helpLines.map (· ++ "\n"))

/-- The result of ending before a command is known. -/
def Stop.result : Stop → Result
  | .version => ⟨0, versionText, [], ""⟩
  | .help => ⟨0, helpText, [], ""⟩
  | .usage e => ⟨2, "", [], s!"error: {e.message}\n"⟩

def run (env : Environment) (arguments : List String) : Result :=
  match Request.ofArguments arguments with
  | .error stop => stop.result
  | .ok request => respond env request

end Preflight.CommandLine
