import Preflight.Table
import Preflight.Text.Blank

/-!
# Fields of a descriptor header

A header binds each key to one text or to a list of texts. A `Descriptor` is the
table of these bindings; the order in which the fields were written has no
meaning.
-/

set_option autoImplicit false

namespace Preflight.Header

/-- The value of a header field. -/
inductive FieldValue where
  | scalar (text : String)
  | list (items : List String)
deriving Repr, DecidableEq

/-- The fields of a header by key. -/
abbrev Descriptor := Table FieldValue

namespace FieldValue

/-- Whether the value says nothing: a blank text or a list without items. -/
def isEmpty : FieldValue → Bool
  | .scalar text => (Text.trim text.toList).isEmpty
  | .list items => items.isEmpty

/-- The text of a scalar. -/
def scalar? : FieldValue → Option String
  | .scalar text => some text
  | .list _ => none

/-- The items of a list; a scalar counts as its only item. -/
def items : FieldValue → List String
  | .scalar text => [text]
  | .list items => items

def kindName : FieldValue → String
  | .scalar _ => "scalar"
  | .list _ => "list"

end FieldValue

end Preflight.Header
