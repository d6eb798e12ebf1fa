import Preflight.Number.Binary64
import Preflight.Table

/-!
# JSON values

A value of the JSON data format. Integers that fit 64 bits, with a sign if they
are negative, stay integers; every other number is a double. The members of an
object are kept as they were written; `Value.members?` is the object's meaning,
in which names are unique and ordered and of two members for one name the later
counts.
-/

set_option autoImplicit false

namespace Preflight.Json

open Preflight.Number

/-- A number: an exact integer or a double. -/
inductive Number where
  | integer (value : Int)
  | double (value : Binary64)
deriving Repr, DecidableEq

/-- A JSON value. -/
inductive Value where
  | null
  | bool (value : Bool)
  | number (value : Number)
  | string (value : String)
  | array (items : List Value)
  | object (members : List (String × Value))
deriving Repr, Inhabited

namespace Number

/-- The double nearest to the number. -/
def toBinary64 : Number → Binary64
  | .integer n => if n < 0 then (Binary64.ofNat n.natAbs).neg else Binary64.ofNat n.natAbs
  | .double x => x

end Number

namespace Value

def typeName : Value → String
  | .null => "null"
  | .bool _ => "boolean"
  | .number _ => "number"
  | .string _ => "string"
  | .array _ => "array"
  | .object _ => "object"

/-- The members of an object by name; of two members for one name the later counts. -/
def members? : Value → Option (Table Value)
  | .object members => some (Table.ofList members)
  | _ => none

def string? : Value → Option String
  | .string text => some text
  | _ => none

/-- The member of an object with the given name. -/
def member? (v : Value) (name : String) : Option Value :=
  v.members?.bind (·.find? name)

end Value

end Preflight.Json
