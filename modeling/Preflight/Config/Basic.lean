import Preflight.Table

/-!
# Configuration

The rules that a project may set for its checks, each with a default. Bounds are
unsigned 64-bit numbers; timeouts are in seconds.
-/

set_option autoImplicit false

namespace Preflight

/-- Where descriptors are kept and what their headers must hold. -/
structure AgentRules where
  dir : String
  suffix : String
  requiredFields : List String
  models : List String
  minDescriptionChars : UInt64
  minBodyChars : UInt64
deriving Repr, DecidableEq

/-- Where the declared list of descriptors is kept. -/
structure ManifestRules where
  /-- The document with the list, relative to the project. -/
  path : String
  /-- The member of the document that is the list. -/
  key : String
  /-- The directory that entries are relative to, itself relative to the project. -/
  root : String
deriving Repr, DecidableEq

/-- Where hook settings are kept, what may stand in them, and bounds for timeouts. -/
structure HookRules where
  globalPath : String
  projectPath : String
  minTimeout : UInt64
  maxTimeout : UInt64
  defaultTimeout : UInt64
  lifecycles : List String
  actionTypes : List String
  interpreters : List String
  recommendedTimeouts : Table UInt64
deriving Repr, DecidableEq

/-- The rules of all checks. -/
structure Config where
  agents : AgentRules
  manifest : ManifestRules
  hooks : HookRules
deriving Repr, DecidableEq

/-- The rules for descriptors of a project that sets none. -/
def AgentRules.default : AgentRules where
  dir := "agents"
  suffix := ".md"
  requiredFields := ["name", "description", "tools"]
  models := ["sonnet", "opus", "haiku", "inherit"]
  minDescriptionChars := 20
  minBodyChars := 50

/-- The rules for the manifest of a project that sets none. -/
def ManifestRules.default : ManifestRules where
  path := ".claude-plugin/plugin.json"
  key := "agents"
  root := "."

/-- The rules for hooks of a project that sets none. -/
def HookRules.default : HookRules where
  globalPath := "~/.claude/settings.json"
  projectPath := ".claude/settings.json"
  minTimeout := 1
  maxTimeout := 600
  defaultTimeout := 60
  lifecycles :=
    ["PreToolUse", "PostToolUse", "UserPromptSubmit", "Notification", "Stop", "SubagentStop",
      "PreCompact", "SessionStart", "SessionEnd"]
  actionTypes := ["command"]
  interpreters :=
    ["python", "python3", "py", "node", "bash", "sh", "zsh", "bun", "deno", "ruby", "perl", "pwsh",
      "powershell"]
  recommendedTimeouts := Table.ofList
    [("PreToolUse", 30), ("PostToolUse", 60), ("UserPromptSubmit", 30), ("Notification", 30),
      ("Stop", 60), ("SubagentStop", 60), ("PreCompact", 60), ("SessionStart", 60),
      ("SessionEnd", 60)]

/-- The configuration of a project that sets nothing. -/
def Config.default : Config :=
  ⟨.default, .default, .default⟩

instance : Inhabited AgentRules := ⟨.default⟩
instance : Inhabited ManifestRules := ⟨.default⟩
instance : Inhabited HookRules := ⟨.default⟩
instance : Inhabited Config := ⟨.default⟩

namespace HookRules

def recommendedTimeout? (rules : HookRules) (lifecycle : String) : Option UInt64 :=
  rules.recommendedTimeouts.find? lifecycle

def isLifecycle (rules : HookRules) (name : String) : Bool :=
  rules.lifecycles.contains name

def isActionType (rules : HookRules) (name : String) : Bool :=
  rules.actionTypes.contains name

end HookRules

end Preflight
