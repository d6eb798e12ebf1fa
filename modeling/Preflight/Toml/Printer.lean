import Preflight.Toml.Reader

/-!
# Writing keys and values of TOML

A string is written in the first of several styles that needs no escapes: between
double quotes, between single quotes, between three double quotes, between three
single quotes. If it needs escapes anyway, double quotes are taken, three of them
if it has several lines. Keys are written without quotes where possible.
-/

set_option autoImplicit false

namespace Preflight.Toml

/-! ### Strings -/

/-- The ways to write a string. -/
inductive Style where
  | basic
  | literal
  | text
  | literalText
deriving Repr, DecidableEq

/-- A control character that only an escape can write; tabs and line feeds are none. -/
def needsEscape (c : Char) : Bool :=
  (c.toNat < 0x20 && c != '\t' && c != '\n') || c.toNat == 0x7F

/-- The length of the longest run of a character, given the length of the run just before the text. -/
def longestRun (c : Char) : (run : Nat) → List Char → Nat
  | run, [] => run
  | run, d :: rest =>
    if d = c then longestRun c (run + 1) rest else max run (longestRun c 0 rest)

/-- The style in which a string is written. -/
def Style.choose (s : List Char) : Style :=
  let escapes := s.any needsEscape
  let backslash := s.contains '\\'
  let newline := s.contains '\n'
  let double := longestRun '"' 0 s
  let single := longestRun '\'' 0 s
  if !escapes && !backslash && double == 0 && !newline then .basic
  else if !escapes && single == 0 && !newline then .literal
  else if !escapes && !backslash && double ≤ 2 then .text
  else if !escapes && single ≤ 2 then .literalText
  else if newline then .text
  else .basic

/-- A hexadecimal digit, a letter being a capital. -/
def hexDigit (n : Nat) : Char :=
  (Nat.digitChar n).toUpper

/-- A character as a string in basic style has it. -/
def escapeChar (c : Char) : List Char :=
  if c = '\x08' then ['\\', 'b']
  else if c = '\t' then ['\\', 't']
  else if c = '\n' then ['\\', 'n']
  else if c = '\x0c' then ['\\', 'f']
  else if c = '\r' then ['\\', 'r']
  else if c = '"' then ['\\', '"']
  else if c = '\\' then ['\\', '\\']
  else if needsEscape c then
    ['\\', 'u', '0', '0', hexDigit (c.toNat / 16), hexDigit (c.toNat % 16)]
  else [c]

/-- A string as it stands between three double quotes. Line feeds stay, and so do quotes unless they
would be the third in a row; the first argument is the number of quotes just before the text. -/
def escapeText : (quotes : Nat) → List Char → List Char
  | _, [] => []
  | quotes, c :: rest =>
    if c = '"' then
      if quotes < 2 then c :: escapeText (quotes + 1) rest else '\\' :: c :: escapeText 0 rest
    else if c = '\n' then c :: escapeText 0 rest
    else escapeChar c ++ escapeText 0 rest

/-- What stands between the three opening quotes and a string: a line feed, if the string has one too. -/
def opening (s : List Char) : List Char :=
  if s.contains '\n' then ['\n'] else []

def Style.write (s : List Char) : Style → List Char
  | .basic => '"' :: s.flatMap escapeChar ++ ['"']
  | .literal => '\'' :: s ++ ['\'']
  | .text => ['"', '"', '"'] ++ opening s ++ escapeText 0 s ++ ['"', '"', '"']
  | .literalText => ['\'', '\'', '\''] ++ opening s ++ s ++ ['\'', '\'', '\'']

def writeString (text : String) : List Char :=
  (Style.choose text.toList).write text.toList

/-! ### Keys -/

/-- The style in which a key is written that cannot do without quotes. -/
def Style.chooseForKey (s : List Char) : Style :=
  let escapes := s.any fun c => needsEscape c || c == '\n'
  if escapes then .basic
  else if s.contains '\\' || s.contains '"' then
    if s.contains '\'' then .basic else .literal
  else .basic

/-- One part of a key. -/
def writeName (name : String) : List Char :=
  let s := name.toList
  if !s.isEmpty && s.all isBareKeyChar then s else (Style.chooseForKey s).write s

/-- A key of several parts. -/
def writeKey (names : List String) : List Char :=
  ['.'].intercalate (names.map writeName)

/-! ### Values -/

/-- A list of strings: one a line if there are several, indented by four spaces. -/
def writeStrings : List String → List Char
  | [] => ['[', ']']
  | [text] => '[' :: writeString text ++ [']']
  | texts =>
    ['[', '\n'] ++ texts.flatMap (fun text => [' ', ' ', ' ', ' '] ++ writeString text ++ [',', '\n']) ++
      [']']

/-- A natural number. -/
def writeNat (n : Nat) : List Char :=
  Nat.toDigits 10 n

end Preflight.Toml
