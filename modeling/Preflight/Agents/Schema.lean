import Preflight.Config.Basic
import Preflight.Diagnostic.Outcome
import Preflight.Header.Document

/-!
# The schema of descriptors

The rules that one descriptor document has to follow. Each rule looks at one
field, or at the body, and says at most one thing about it; the outcome lists what
the rules say in a fixed order.
-/

set_option autoImplicit false

namespace Preflight.Agents

open Preflight.Header

/-- The source that descriptor diagnostics are about. -/
def source : String := "agents"

/-- The number of characters between the first and the last that are not blank. -/
def visibleLength (text : String) : Nat :=
  (Text.trim text.toList).length

/-- A field of the file with the given label. -/
def fieldOf (label field : String) : Location :=
  ((Location.ofSource source).inScope label).atField field

/-- A required field must be there and must not be empty. -/
def requiredIssue? (header : Descriptor) (label field : String) : Option Diagnostic :=
  match header.find? field with
  | none => some (.error .schema s!"missing required field '{field}'" (fieldOf label field))
  | some value =>
    if value.isEmpty then
      some (.error .schema s!"missing required field '{field}' (present but empty)"
        (fieldOf label field))
    else none

/-- The name must be a single value and should be the name of the file. -/
def nameIssue? (header : Descriptor) (stem label : String) : Option Diagnostic :=
  match header.find? "name" with
  | some (.scalar name) =>
    if visibleLength name ≠ 0 ∧ name ≠ stem then
      some (.warning .syntactic s!"name '{name}' does not match file name '{stem}'"
        (fieldOf label "name"))
    else none
  | some (.list items) =>
    if items.isEmpty then none
    else some (.error .schema "field 'name' must be a single value, found a list" (fieldOf label "name"))
  | none => none

/-- A model as it is shown in a message. -/
def shownModel : FieldValue → String
  | .scalar text => text
  | .list items => "[" ++ ", ".intercalate items ++ "]"

/-- A model must be one of those listed. -/
def modelIssue? (header : Descriptor) (label : String) (models : List String) : Option Diagnostic :=
  match header.find? "model" with
  | none => none
  | some model =>
    if model.scalar?.any models.contains then none
    else
      let shown := shownModel model
      let known := ", ".intercalate models
      some (.error .schema s!"invalid model '{shown}': expected one of {known}"
        (fieldOf label "model"))

/-- A description should not be too short. -/
def descriptionIssue? (header : Descriptor) (label : String) (least : UInt64) : Option Diagnostic :=
  match header.find? "description" with
  | some (.scalar description) =>
    let length := visibleLength description
    if 0 < length ∧ length < least.toNat then
      some (.warning .advisory
        s!"description is {length} characters; at least {least.toNat} recommended"
        (fieldOf label "description"))
    else none
  | _ => none

/-- Skills should not be declared without listing any. -/
def skillsIssue? (header : Descriptor) (label : String) : Option Diagnostic :=
  match header.find? "skills" with
  | some skills =>
    if skills.isEmpty then
      some (.warning .advisory "skills is declared but lists nothing" (fieldOf label "skills"))
    else none
  | none => none

/-- A body should not be too short. -/
def bodyIssue? (body label : String) (least : UInt64) : Option Diagnostic :=
  let length := visibleLength body
  if length < least.toNat then
    some (.warning .advisory
      s!"insufficient content: body has {length} characters, at least {least.toNat} expected"
      (fieldOf label "body"))
  else none

/-- What the rules say about a document whose file has the given name, with and without its suffix. -/
def checkDocument (doc : Document) (stem label : String) (rules : AgentRules) : Outcome :=
  ⟨rules.requiredFields.filterMap (requiredIssue? doc.header label) ++
    (nameIssue? doc.header stem label).toList ++
    (modelIssue? doc.header label rules.models).toList ++
    (descriptionIssue? doc.header label rules.minDescriptionChars).toList ++
    (skillsIssue? doc.header label).toList ++
    (bodyIssue? doc.body label rules.minBodyChars).toList⟩

end Preflight.Agents
