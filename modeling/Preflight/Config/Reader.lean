import Preflight.Config.Basic
import Preflight.FileTree.Lookup
import Preflight.RunError
import Preflight.Toml.Document

/-!
# Reading configurations

A configuration file overrides the defaults field by field. A section of it is a
table of fields or a list of their values in the order of the fields; what is not
there keeps its default. A field with a value of the wrong type makes the whole
file unusable. What has no meaning is ignored: entries with other names, as long as
their numbers can be held, and whatever stands in a list after the last field.
-/

set_option autoImplicit false

namespace Preflight

open Preflight.Toml (Value)

namespace Config

/-- Why a text is no configuration. -/
inductive Flaw where
  /-- It is no TOML document. -/
  | malformed (failure : Toml.Failure)
  /-- A field has a value of the wrong type. -/
  | wrongType (field : String)
  /-- An entry has a number that cannot be held. -/
  | unrepresentable (name : String)
deriving Repr, DecidableEq

def Flaw.describe (text : List Char) : Flaw → String
  | .malformed failure => failure.describe text
  | .wrongType field => s!"wrong type of value for '{field}'"
  | .unrepresentable name => s!"number out of range in the value of '{name}'"

/-! ### Values of fields -/

def text? : Value → Option String
  | .string text => some text
  | _ => none

/-- An unsigned number of 64 bits. -/
def number? : Value → Option UInt64
  | .integer n => if 0 ≤ n ∧ n < (UInt64.size : Int) then some (UInt64.ofNat n.toNat) else none
  | _ => none

def texts? : Value → Option (List String)
  | .array items => items.mapM text?
  | _ => none

def numbers? : Value → Option (Table UInt64)
  | .table entries =>
    (entries.mapM fun e => (number? e.2).map fun n => (e.1, n)).map Table.ofList
  | _ => none

/-- Refuse entries with numbers that cannot be held. -/
def checkNumbers (entries : List (String × Value)) : Except Flaw Unit :=
  match entries.find? fun e => !e.2.isRepresentable with
  | some e => .error (.unrepresentable e.1)
  | none => .ok ()

/-! ### Sections -/

/-- What a file says about the fields of a section. -/
inductive Fields where
  | byName (entries : List (String × Value))
  | byPosition (values : List Value)
deriving Repr

/-- The fields of a section; a date or a time is a section that says nothing. -/
def Fields.ofValue? : Value → Option Fields
  | .table entries => some (.byName entries)
  | .array values => some (.byPosition values)
  | .dateTime _ => some (.byName [])
  | _ => none

/-- Refuse fields with numbers that cannot be held; values after the last field are none. -/
def Fields.check : Fields → Except Flaw Unit
  | .byName entries => checkNumbers entries
  | .byPosition _ => .ok ()

def Fields.value? (position : Nat) (name : String) : Fields → Option Value
  | .byName entries => Toml.find? name entries
  | .byPosition values => values[position]?

/-- A field, or its default if the file does not say anything about it. -/
def Fields.read {α : Type} (fields : Fields) (read? : Value → Option α) (position : Nat)
    (name : String) (default : α) : Except Flaw α :=
  match fields.value? position name with
  | none => .ok default
  | some v =>
    match read? v with
    | some a => .ok a
    | none => .error (.wrongType name)

def readAgents (fields : Fields) : Except Flaw AgentRules := do
  let base := AgentRules.default
  return {
    dir := ← fields.read text? 0 "dir" base.dir
    suffix := ← fields.read text? 1 "suffix" base.suffix
    requiredFields := ← fields.read texts? 2 "required_fields" base.requiredFields
    models := ← fields.read texts? 3 "models" base.models
    minDescriptionChars := ← fields.read number? 4 "min_description_chars" base.minDescriptionChars
    minBodyChars := ← fields.read number? 5 "min_body_chars" base.minBodyChars }

def readManifest (fields : Fields) : Except Flaw ManifestRules := do
  let base := ManifestRules.default
  return {
    path := ← fields.read text? 0 "path" base.path
    key := ← fields.read text? 1 "key" base.key
    root := ← fields.read text? 2 "root" base.root }

def readHooks (fields : Fields) : Except Flaw HookRules := do
  let base := HookRules.default
  return {
    globalPath := ← fields.read text? 0 "global" base.globalPath
    projectPath := ← fields.read text? 1 "project" base.projectPath
    minTimeout := ← fields.read number? 2 "min_timeout" base.minTimeout
    maxTimeout := ← fields.read number? 3 "max_timeout" base.maxTimeout
    defaultTimeout := ← fields.read number? 4 "default_timeout" base.defaultTimeout
    lifecycles := ← fields.read texts? 5 "lifecycles" base.lifecycles
    actionTypes := ← fields.read texts? 6 "action_types" base.actionTypes
    interpreters := ← fields.read texts? 7 "interpreters" base.interpreters
    recommendedTimeouts :=
      ← fields.read numbers? 8 "recommended_timeouts" base.recommendedTimeouts }

/-- A section of a document, or its default if the document lacks it. -/
def readSection {α : Type} (root : List (String × Value)) (name : String) (default : α)
    (read : Fields → Except Flaw α) : Except Flaw α :=
  match Toml.find? name root with
  | none => .ok default
  | some v =>
    match Fields.ofValue? v with
    | some fields => do
      fields.check
      read fields
    | none => .error (.wrongType name)

def sectionNames : List String := ["agents", "manifest", "hooks"]

/-- The configuration that the root table of a document says. -/
def ofRoot (root : List (String × Value)) : Except Flaw Config := do
  checkNumbers (root.filter fun e => !sectionNames.contains e.1)
  return {
    agents := ← readSection root "agents" .default readAgents
    manifest := ← readSection root "manifest" .default readManifest
    hooks := ← readSection root "hooks" .default readHooks }

def ofText (text : String) : Except Flaw Config :=
  match Toml.readDocument text with
  | .error failure => .error (.malformed failure)
  | .ok root => ofRoot root

/-! ### Files -/

def fileName : String := "agentlint.toml"

/-- The configuration, unless its bounds of timeouts leave none. -/
def checkBounds (c : Config) : Except RunError Config :=
  if c.hooks.maxTimeout < c.hooks.minTimeout then
    .error (.configBounds c.hooks.minTimeout c.hooks.maxTimeout)
  else .ok c

def readFile (t : FileTree) (path : Path) : Except RunError Config :=
  match t.readText path with
  | .error e => .error (.unreadable e)
  | .ok text =>
    match ofText text with
    | .error flaw => .error (.configMalformed path (flaw.describe text.toList))
    | .ok c => c.checkBounds

/-- The configuration of a project: that of the file that is asked for, which must exist, or that of the
project's own file, or the default. -/
def load (t : FileTree) (root : Path) (explicit : Option Path) : Except RunError Config :=
  match explicit with
  | some path =>
    let path := root.join path
    if t.isFile path then readFile t path else .error (.configMissing path)
  | none =>
    let path := root.join ⟨fileName⟩
    if t.isFile path then readFile t path else .ok .default

end Config

end Preflight
