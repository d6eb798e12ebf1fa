import Preflight.Toml.Value

/-!
# Tables in the making

While a document is read, its tables are still open, and how a table came into
being decides what may extend it. A table under its own header is complete: it may
be gone through by headers of tables inside it, but not by dotted keys. A table
that only headers of tables inside it imply may still get a header of its own,
unless a dotted key goes through it first: then it belongs to the dotted keys. Such
a table, like one that they have made, gets its values by dotted keys only.
-/

set_option autoImplicit false

namespace Preflight.Toml

/-- How a table came into being. -/
inductive Origin where
  /-- By a header of its own, or as the root. -/
  | header
  /-- By a header of a table inside it. -/
  | implied
  /-- By a dotted key, or by a header of a table inside it and then extended by a dotted key. -/
  | dotted
deriving Repr, DecidableEq

/-- What a name stands for while a document is read. -/
inductive Draft where
  /-- A value, which nothing can extend. -/
  | value (v : Value)
  | table (origin : Origin) (entries : List (String × Draft))
  /-- Tables under repeated headers, the last one first. -/
  | tables (items : List Draft)
deriving Repr, Inhabited

namespace Draft

/-- The entries of a table in the making. -/
abbrev Entries := List (String × Draft)

/-- What is to become of a table, given how it came into being and its entries; none if that is not allowed. -/
abbrev Change := Origin → Entries → Option (Origin × Entries)

/-- Change the table to which names lead from a table; `byKey` tells whether the names are those of a
dotted key or of a header. Tables on the way are made as needed, a dotted key claims those that it goes
through, and of tables under repeated headers the last one counts. -/
def within (byKey : Bool) (change : Change) : List String → Change
  | [], origin, entries => change origin entries
  | name :: rest, origin, entries =>
    match find? name entries with
    | none =>
      (within byKey change rest (if byKey then .dotted else .implied) []).map fun (o, es) =>
        (origin, entries ++ [(name, .table o es)])
    | some (.table inner es) =>
      if byKey ∧ inner = .header then none
      else
        (within byKey change rest (if byKey then .dotted else inner) es).map fun (o, es) =>
          (origin, replace name (.table o es) entries)
    | some (.tables (.table inner es :: earlier)) =>
      (within byKey change rest inner es).map fun (o, es) =>
        (origin, replace name (.tables (.table o es :: earlier)) entries)
    | some _ => none

/-- Bind a name to a value. A dotted key, one that leads through other tables, binds only in tables that dotted keys have made. -/
def bind (isDotted : Bool) (name : String) (value : Value) : Change := fun origin entries =>
  if (origin = .dotted ↔ isDotted) ∧ (find? name entries).isNone then
    some (origin, entries ++ [(name, .value value)])
  else none

/-- Bind a key, given by its names from a table on, to a value. -/
def bindKey (path : List String) (name : String) (value : Value) : Change :=
  within true (bind (!path.isEmpty) name value) path

/-- Open the table under a header. -/
def openTable (name : String) : Change := fun origin entries =>
  match find? name entries with
  | none => some (origin, entries ++ [(name, .table .header [])])
  | some (.table .implied es) => some (origin, replace name (.table .header es) entries)
  | some _ => none

/-- Open one more table under a repeated header. -/
def openItem (name : String) : Change := fun origin entries =>
  match find? name entries with
  | none => some (origin, entries ++ [(name, .tables [.table .header []])])
  | some (.tables items) => some (origin, replace name (.tables (.table .header [] :: items)) entries)
  | some _ => none

mutual

/-- The value that a name stands for in the end. -/
def toValue : Draft → Value
  | .value v => v
  | .table _ entries => .table (toEntries entries)
  | .tables items => .array (toItems items).reverse

/-- The entries of a table in the end. -/
def toEntries : List (String × Draft) → List (String × Value)
  | [] => []
  | (name, d) :: rest => (name, d.toValue) :: toEntries rest

/-- The items of an array in the end. -/
def toItems : List Draft → List Value
  | [] => []
  | d :: rest => d.toValue :: toItems rest

end

end Draft

end Preflight.Toml
