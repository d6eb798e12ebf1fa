import Preflight.Config.Basic
import Preflight.Toml.Printer

/-!
# Writing configurations

A configuration as a TOML document: four tables with all their fields in a fixed
order, with an empty line between two tables.
-/

set_option autoImplicit false

namespace Preflight

/-- The value of a field. -/
inductive Setting where
  | text (value : String)
  | texts (values : List String)
  | number (value : UInt64)
deriving Repr, DecidableEq

/-- The value of a field as it is written. -/
def Setting.write : Setting → List Char
  | .text value => Toml.writeString value
  | .texts values => Toml.writeStrings values
  | .number value => Toml.writeNat value.toNat

/-- A table of a configuration. -/
structure SettingTable where
  path : List String
  fields : List (String × Setting)
deriving Repr, DecidableEq

def writeField (name : String) (value : Setting) : List Char :=
  Toml.writeName name ++ [' ', '=', ' '] ++ value.write ++ ['\n']

/-- A table under its header. -/
def SettingTable.write (t : SettingTable) : List Char :=
  '[' :: Toml.writeKey t.path ++ [']', '\n'] ++ t.fields.flatMap fun f => writeField f.1 f.2

namespace Config

def agentsTable (rules : AgentRules) : SettingTable where
  path := ["agents"]
  fields :=
    [("dir", .text rules.dir), ("suffix", .text rules.suffix),
      ("required_fields", .texts rules.requiredFields), ("models", .texts rules.models),
      ("min_description_chars", .number rules.minDescriptionChars),
      ("min_body_chars", .number rules.minBodyChars)]

def manifestTable (rules : ManifestRules) : SettingTable where
  path := ["manifest"]
  fields := [("path", .text rules.path), ("key", .text rules.key), ("root", .text rules.root)]

/-- The rules for hooks as a table, without the recommended timeouts. -/
def hooksTable (rules : HookRules) : SettingTable where
  path := ["hooks"]
  fields :=
    [("global", .text rules.globalPath), ("project", .text rules.projectPath),
      ("min_timeout", .number rules.minTimeout), ("max_timeout", .number rules.maxTimeout),
      ("default_timeout", .number rules.defaultTimeout), ("lifecycles", .texts rules.lifecycles),
      ("action_types", .texts rules.actionTypes), ("interpreters", .texts rules.interpreters)]

def timeoutsTable (rules : HookRules) : SettingTable where
  path := ["hooks", "recommended_timeouts"]
  fields := rules.recommendedTimeouts.entries.map fun e => (e.1, .number e.2)

def tables (c : Config) : List SettingTable :=
  [agentsTable c.agents, manifestTable c.manifest, hooksTable c.hooks, timeoutsTable c.hooks]

def toText (c : Config) : String :=
  String.ofList (['\n'].intercalate (c.tables.map SettingTable.write))

end Config

end Preflight
