import Preflight.Diagnostic.Basic
import Preflight.Table
import Preflight.Text.Ascii
import Preflight.Text.Substring

/-!
# Text for a terminal

Boxes, headings and status lines of a report. What depends on the terminal, its
width and whether it shows colours, is a value of its own, so that the same
report can be written for any terminal.
-/

set_option autoImplicit false

namespace Preflight

open Preflight.Text

/-- What text is written for. -/
structure Terminal where
  columns : Nat
  coloured : Bool
deriving Repr, DecidableEq

/-- The state that a line of a report shows. -/
inductive Status where
  | pass
  | fail
  | warn
  | info
  | skipped
deriving Repr, DecidableEq

namespace Status

def icon : Status → String
  | .pass => "✅"
  | .fail => "❌"
  | .warn => "⚠️"
  | .info => "💡"
  | .skipped => "⏭"

/-- The number of a state's colour. -/
def colour : Status → String
  | .pass => "92"
  | .fail => "91"
  | .warn => "93"
  | .info => "36"
  | .skipped => "90"

def ofSeverity : Severity → Status
  | .error => .fail
  | .warning => .warn
  | .info => .info

end Status

/-- A number as environments write it: digits after an optional plus sign, of at most 64 bits. -/
def parseWidth? (text : String) : Option Nat :=
  let digits := match text.toList with
    | '+' :: rest => rest
    | s => s
  if digits.isEmpty || !digits.all isAsciiDigit then none
  else
    let n := decimalValue digits
    if n < UInt64.size then some n else none

namespace Terminal

/-- The width that an environment states: the first of two variables that holds a number, or 80. -/
def widthOf (vars : Table String) : Nat :=
  let width? (name : String) : Option Nat := (vars.find? name).bind parseWidth?
  ((width? "TERM_WIDTH").or (width? "COLUMNS")).getD 80

/-- Whether colours are wanted: they can be forced, else they can be turned off, else they need a
screen and a wish that is not denied. -/
def wantsColours (vars : Table String) (screen : Bool) : Bool :=
  let isOn (name : String) : Option Bool := (vars.find? name).map (· != "0")
  if isOn "CLICOLOR_FORCE" = some true then true
  else if (isOn "NO_COLOR").isSome then false
  else (isOn "CLICOLOR").getD true && screen

/-- The sequence that ends a style. -/
def reset : List Char := "\x1b[0m".toList

/-- A text in a style, given by the numbers of its attributes. A reset inside the text does not end the style. -/
def paint (t : Terminal) (attributes text : String) : String :=
  if t.coloured then
    let start := s!"\x1b[{attributes}m".toList
    String.ofList (start ++ replaceAll reset (reset ++ start) text.toList ++ reset)
  else text

def spaces (n : Nat) : String :=
  String.ofList (List.replicate n ' ')

/-- A horizontal line of a box without its corners. -/
def edge (width : Nat) : String :=
  String.ofList (List.replicate (width - 2) '═')

/-- The upper edge of a box. -/
def boxTop (width : Nat) : String :=
  "╔" ++ edge width ++ "╗"

/-- The lower edge of a box. -/
def boxBottom (width : Nat) : String :=
  "╚" ++ edge width ++ "╝"

/-- A text in the middle of a box; of an odd number of spaces the larger part is on the right. -/
def boxRow (text : String) (width : Nat) : String :=
  let padding := width - 2 - text.length
  let left := padding / 2
  "║" ++ spaces left ++ text ++ spaces (padding - left) ++ "║"

/-- The width of boxes: that of the terminal, but from 40 to 60. -/
def boxWidth (t : Terminal) : Nat :=
  max 40 (min t.columns 60)

def banner (t : Terminal) (title : String) (status : Status) : String :=
  let width := t.boxWidth
  t.paint status.colour (boxTop width) ++ "\n" ++
    t.paint ("1;" ++ status.colour) (boxRow title width) ++ "\n" ++
    t.paint status.colour (boxBottom width) ++ "\n"

/-- The title of a section, after an empty line. -/
def sectionTitle (t : Terminal) (title : String) : String :=
  "\n" ++ t.paint "1" title ++ "\n"

def statusLine (t : Terminal) (indent : Nat) (message : String) (status : Status) : String :=
  spaces indent ++ t.paint status.colour status.icon ++ " " ++ message ++ "\n"

/-- A heading over lines that belong together. -/
def heading (t : Terminal) (indent : Nat) (text : String) : String :=
  spaces indent ++ t.paint "1;97" text ++ "\n"

end Terminal

end Preflight
