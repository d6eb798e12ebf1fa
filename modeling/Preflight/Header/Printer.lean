import Preflight.Header.Field
import Preflight.Header.Quoted

/-!
# Writing headers

The fields in the order of their keys, between two delimiter lines. A text is
quoted where it would be read differently without quotes; lists are written with
one item a line.
-/

set_option autoImplicit false

namespace Preflight.Header

open Preflight.Text

/-- Whether a text would not be read back without quotes. -/
def needsQuotes (s : List Char) : Bool :=
  s.isEmpty || trim s != s ||
    s.head?.any fun c => ['[', '"', '\'', '|', '>', '#'].contains c

/-- A text as the value of a key. -/
def writeScalar (s : List Char) : List Char :=
  if needsQuotes s then quote s else s

/-- A text as an item of a list: quoted if it starts like a quoted text or like an item. -/
def writeItem (s : List Char) : List Char :=
  if s.head? = some '"' ∨ s.head? = some '\'' ∨ ['-', ' '].isPrefixOf s then quote s else s

def writeField (name : String) : FieldValue → List Char
  | .scalar text => name.toList ++ [':', ' '] ++ writeScalar text.toList ++ ['\n']
  | .list [] => name.toList ++ [':', ' ', '[', ']', '\n']
  | .list items =>
    name.toList ++ [':', '\n'] ++
      items.flatMap fun item => [' ', ' ', '-', ' '] ++ writeItem item.toList ++ ['\n']

/-- The opening and closing line of a header. -/
def delimiterLine : List Char :=
  ['-', '-', '-', '\n']

def Descriptor.toText (d : Descriptor) : String :=
  String.ofList (delimiterLine ++ d.entries.flatMap (fun e => writeField e.1 e.2) ++ delimiterLine)

end Preflight.Header
