/-!
# TOML values

A value of the TOML configuration format. Floats and date-times are kept as they
are written, because nothing here computes with them. A number that cannot be held
does no harm to the document it stands in; it is a mistake for whoever reads it.
-/

set_option autoImplicit false

namespace Preflight.Toml

/-- A TOML value. A table lists its entries in the order in which they were defined. -/
inductive Value where
  | string (text : String)
  | integer (value : Int)
  | float (literal : String)
  /-- A number that is too large, or that has no digits after the mark of its base. -/
  | unrepresentable (literal : String)
  | boolean (value : Bool)
  | dateTime (literal : String)
  | array (items : List Value)
  | table (entries : List (String × Value))
deriving Repr, Inhabited

mutual

/-- Whether each number in a value can be held. -/
def Value.isRepresentable : Value → Bool
  | .unrepresentable _ => false
  | .array items => areRepresentable items
  | .table entries => entriesAreRepresentable entries
  | _ => true

/-- Whether each number in some values can be held. -/
def areRepresentable : List Value → Bool
  | [] => true
  | v :: rest => v.isRepresentable && areRepresentable rest

/-- Whether each number in the values of some entries can be held. -/
def entriesAreRepresentable : List (String × Value) → Bool
  | [] => true
  | (_, v) :: rest => v.isRepresentable && entriesAreRepresentable rest

end

/-- The value bound to a name in a list of entries. -/
def find? {α : Type} (name : String) (entries : List (String × α)) : Option α :=
  (entries.find? (·.1 == name)).map Prod.snd

/-- The entries with another value bound to a name that is bound already. -/
def replace {α : Type} (name : String) (value : α) (entries : List (String × α)) :
    List (String × α) :=
  entries.map fun e => if e.1 = name then (name, value) else e

end Preflight.Toml
