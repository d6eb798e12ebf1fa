import Preflight.Text.Blank

/-!
# Words of a command

A command is split into words as a POSIX shell quotes them, except that
backslashes which separate the parts of a path are kept. This happens in two
passes: the first doubles every backslash that does not escape a blank, a quote
or a dollar sign, the second splits by the shell's rules.
-/

set_option autoImplicit false

namespace Preflight.Command

open Preflight.Text

/-- A character that a backslash escapes in a command: a blank, a quote or a dollar sign. -/
def isEscapable (c : Char) : Bool :=
  isBlank c || c == '"' || c == '\'' || c == '$'

/-- Double every backslash that escapes nothing. Inside single quotes all is left as it is; the first
argument is the quote that is open. -/
def protect : Option Char → List Char → List Char
  | _, [] => []
  | quote, '\\' :: rest =>
    if quote = some '\'' then '\\' :: protect quote rest
    else
      match rest with
      | next :: rest =>
        if isEscapable next then '\\' :: next :: protect quote rest
        else '\\' :: '\\' :: protect quote (next :: rest)
      | [] => ['\\', '\\']
  | none, c :: rest =>
    if c = '"' ∨ c = '\'' then c :: protect (some c) rest else c :: protect none rest
  | some q, c :: rest =>
    if c = q then c :: protect none rest else c :: protect (some q) rest

/-- A character that separates words: a space, a tab or a line feed. -/
def isSeparator (c : Char) : Bool :=
  c == ' ' || c == '\t' || c == '\n'

/-- Where a scan of a command stands. Each place but the comment knows the word that has been begun. -/
inductive Place where
  /-- Outside quotes; no word has been begun between words. -/
  | outside (word : Option (List Char))
  /-- After a `#` between words, up to the end of the line. -/
  | comment
  | singleQuoted (word : List Char)
  | doubleQuoted (word : List Char)
deriving Repr, DecidableEq

/-- A character that a backslash escapes between double quotes. -/
def isDoubleQuoteEscape (c : Char) : Bool :=
  c == '$' || c == '\x60' || c == '"' || c == '\\'

/-- Split a text into words by the quoting rules of a POSIX shell; none if a quote is left open or
the text ends in a lone backslash. -/
def shellWords : Place → List Char → Option (List (List Char))
  | .outside none, [] => some []
  | .outside (some word), [] => some [word]
  | .comment, [] => some []
  | .singleQuoted _, [] => none
  | .doubleQuoted _, [] => none
  | .comment, c :: rest =>
    if c = '\n' then shellWords (.outside none) rest else shellWords .comment rest
  | .singleQuoted word, c :: rest =>
    if c = '\'' then shellWords (.outside (some word)) rest
    else shellWords (.singleQuoted (word ++ [c])) rest
  | .doubleQuoted word, '\\' :: c :: rest =>
    if c = '\n' then shellWords (.doubleQuoted word) rest
    else if isDoubleQuoteEscape c then shellWords (.doubleQuoted (word ++ [c])) rest
    else shellWords (.doubleQuoted (word ++ ['\\', c])) rest
  | .doubleQuoted word, c :: rest =>
    if c = '\\' then none
    else if c = '"' then shellWords (.outside (some word)) rest
    else shellWords (.doubleQuoted (word ++ [c])) rest
  | .outside word, '\\' :: c :: rest =>
    let begun := word.getD []
    if c = '\n' then shellWords (.outside (some begun)) rest
    else shellWords (.outside (some (begun ++ [c]))) rest
  | .outside word, c :: rest =>
    if c = '\\' then none
    else if isSeparator c then
      match word with
      | none => shellWords (.outside none) rest
      | some done => (shellWords (.outside none) rest).map (done :: ·)
    else if c = '#' ∧ word = none then shellWords .comment rest
    else
      let begun := word.getD []
      if c = '\'' then shellWords (.singleQuoted begun) rest
      else if c = '"' then shellWords (.doubleQuoted begun) rest
      else shellWords (.outside (some (begun ++ [c]))) rest

/-- The words of a command; none if its quotes do not match. -/
def words? (command : List Char) : Option (List (List Char)) :=
  shellWords (.outside none) (protect none command)

end Preflight.Command
