import Preflight.Diagnostic.Outcome
import Preflight.Json.Value

/-!
# Diagnostics as JSON

The objects under which diagnostics appear in a machine-readable report. A part
of a location that is not there has no member.
-/

set_option autoImplicit false

namespace Preflight

open Preflight.Json (Value)

namespace Json

/-- A number of things. -/
def Value.count (n : Nat) : Value :=
  .number (.integer n)

/-- A member, if there is something to say. -/
def member? {α : Type} (name : String) (value : α → Value) (part : Option α) : List (String × Value) :=
  (part.map fun a => (name, value a)).toList

end Json

open Json (member?)

def Location.toJson (l : Location) : Value :=
  .object <|
    ("source", .string l.source) :: member? "scope" .string l.scope ++
      member? "index" .count l.entry ++ member? "action" .count l.action ++
      member? "field" .string l.field ++ member? "path" (.string ·.text) l.path

def Diagnostic.toJson (d : Diagnostic) : Value :=
  .object
    [("severity", .string d.severity.name), ("kind", .string d.kind.name),
      ("message", .string d.message), ("location", d.location.toJson)]

def Outcome.toJson (o : Outcome) : Value :=
  .object [("diagnostics", .array (o.diagnostics.map Diagnostic.toJson))]

end Preflight
