import Preflight.CommandLine.Run

/-!
# Paths that a run looks at

What a run looks at depends on what it finds: the configuration says where
descriptors and settings are, and these name further files. Given the files that
are known so far, `lookups` lists the paths that have to be known next. A run
whose lookups are all known has its final result.
-/

set_option autoImplicit false

namespace Preflight.CommandLine

/-- The configuration file of a project. -/
def configPath (root : Path) (explicit : Option Path) : Path :=
  root.join (explicit.getD ⟨Config.fileName⟩)

def descriptorPaths (t : FileTree) (dir : Path) (suffix : String) : List Path :=
  match Inventory.scan t dir suffix with
  | .ok inventory => inventory.names.map inventory.pathOf
  | .error _ => []

def Task.options : Task → Agents.Options
  | .agents options => options
  | _ => .default

def configuredPaths (env : Environment) (root : Path) (config : Config) (task : Task) : List Path :=
  let dir := Agents.dirIn root config.agents task.options
  let sources := Hooks.sources config.hooks (env.resolver root) .all
  dir :: Manifest.pathIn root config.manifest task.options.manifest ::
    sources.map Hooks.Source.path ++ descriptorPaths env.files dir config.agents.suffix

def citedPaths : Answer → List Path
  | .text _ => []
  | .report r => r.outcome.diagnostics.filterMap (·.location.path)

/-- The paths that a request looks at, as far as the known files tell. -/
def lookups (env : Environment) (request : Request) : List Path :=
  let asked := env.workingDirectory.join (request.root.getD env.workingDirectory)
  match env.root request.root with
  | .error _ => [asked]
  | .ok root =>
    let file := configPath root request.config
    match Config.load env.files root request.config with
    | .error _ => [asked, file]
    | .ok config =>
      let cited := match perform env root config request.task with
        | .ok answer => citedPaths answer
        | .error _ => []
      asked :: file :: configuredPaths env root config request.task ++ cited

end Preflight.CommandLine
