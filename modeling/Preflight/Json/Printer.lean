import Preflight.Json.Value
import Preflight.Number.Shortest

/-!
# Writing JSON texts

Two layouts of the same text: on one line, and with one item or member a line,
indented by two spaces a level. Strings are written raw except for quotes,
backslashes and control characters. Doubles are written with the fewest digits
that read back.
-/

set_option autoImplicit false

namespace Preflight.Number

/-- The digits of a decimal with its point, or in scientific notation below `10⁻⁵` and from `10¹⁶` on.
There is always a digit after the point of the one and a sign in the exponent of the other. -/
def Decimal.layout (d : Decimal) : List Char :=
  let digits := Nat.toDigits 10 d.digits
  let e : Int := d.exponent + digits.length - 1
  if -5 ≤ e ∧ e ≤ 15 then
    if 0 ≤ d.exponent then digits ++ List.replicate d.exponent.toNat '0' ++ ['.', '0']
    else if 0 ≤ e then
      digits.take (e.toNat + 1) ++ '.' :: digits.drop (e.toNat + 1)
    else ['0', '.'] ++ List.replicate (-e - 1).toNat '0' ++ digits
  else
    let tail := digits.drop 1
    digits.take 1 ++ (if tail.isEmpty then [] else '.' :: tail) ++
      ['e', if e < 0 then '-' else '+'] ++ Nat.toDigits 10 e.natAbs

/-- The shortest text that reads back as the double. -/
def Binary64.text (x : Binary64) : String :=
  let magnitude := if x.isZero then ['0', '.', '0'] else x.shortest.layout
  String.ofList (if x.negative then '-' :: magnitude else magnitude)

end Preflight.Number

namespace Preflight.Json

/-- A number as it is written in texts and in messages. -/
def Number.text : Number → String
  | .integer n => toString n
  | .double x => x.text

/-- The digit of a value below 16, in lower case. -/
def hexDigit (n : Nat) : Char :=
  Nat.digitChar n

/-- A character as it is written between quotes. -/
def escapeChar (c : Char) : List Char :=
  if c = '"' then ['\\', '"']
  else if c = '\\' then ['\\', '\\']
  else if c = '\x08' then ['\\', 'b']
  else if c = '\x0c' then ['\\', 'f']
  else if c = '\n' then ['\\', 'n']
  else if c = '\r' then ['\\', 'r']
  else if c = '\t' then ['\\', 't']
  else if c.toNat < 0x20 then
    ['\\', 'u', '0', '0', hexDigit (c.toNat / 16), hexDigit (c.toNat % 16)]
  else [c]

def quoted (text : String) : List Char :=
  '"' :: text.toList.flatMap escapeChar ++ ['"']

/-- What stands between the parts of a text: the start of a line at a depth, and the text between a name and its value. -/
structure Layout where
  line : Nat → List Char
  colon : List Char

/-- Everything on one line. -/
def Layout.compact : Layout :=
  ⟨fun _ => [], [':']⟩

/-- One item or member a line, indented by two spaces a level. -/
def Layout.indented : Layout :=
  ⟨fun depth => '\n' :: List.replicate (2 * depth) ' ', [':', ' ']⟩

mutual

/-- A value that starts at the given depth. -/
def Value.write (layout : Layout) (depth : Nat) : Value → List Char
  | .null => "null".toList
  | .bool true => "true".toList
  | .bool false => "false".toList
  | .number n => n.text.toList
  | .string text => quoted text
  | .array [] => ['[', ']']
  | .array (v :: vs) =>
    '[' :: layout.line (depth + 1) ++ v.write layout (depth + 1) ++
      Value.writeItems layout (depth + 1) vs ++ layout.line depth ++ [']']
  | .object [] => ['\x7b', '\x7d']
  | .object ((name, v) :: ms) =>
    '\x7b' :: layout.line (depth + 1) ++ quoted name ++ layout.colon ++ v.write layout (depth + 1) ++
      Value.writeMembers layout (depth + 1) ms ++ layout.line depth ++ ['\x7d']

/-- The items after the first, each with the comma before it. -/
def Value.writeItems (layout : Layout) (depth : Nat) : List Value → List Char
  | [] => []
  | v :: vs => ',' :: layout.line depth ++ v.write layout depth ++ Value.writeItems layout depth vs

/-- The members after the first, each with the comma before it. -/
def Value.writeMembers (layout : Layout) (depth : Nat) : List (String × Value) → List Char
  | [] => []
  | (name, v) :: ms =>
    ',' :: layout.line depth ++ quoted name ++ layout.colon ++ v.write layout depth ++
      Value.writeMembers layout depth ms

end

/-- The text of a value on one line. -/
def Value.compact (v : Value) : String :=
  String.ofList (v.write .compact 0)

/-- The text of a value with one item or member a line. -/
def Value.pretty (v : Value) : String :=
  String.ofList (v.write .indented 0)

end Preflight.Json
