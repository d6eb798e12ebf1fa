import Preflight.Text.Blank

/-!
# Text cut to a bounded width

Report lines quote text of unknown length. It is put on one line by writing each
run of blanks as one space, and cut after a bounded number of characters; a cut
shows as three dots.
-/

set_option autoImplicit false

namespace Preflight.Text

/-- The words of a text with single spaces between them. -/
def collapse (s : List Char) : List Char :=
  [' '].intercalate (words s)

/-- The first `limit` characters of the collapsed text, with `...` after them if any were cut. -/
def compact (limit : Nat) (s : List Char) : List Char :=
  let collapsed := collapse s
  if collapsed.length ≤ limit then collapsed else collapsed.take limit ++ ['.', '.', '.']

/-- A text on one line, cut after `limit` characters. -/
def compactLine (text : String) (limit : Nat) : String :=
  String.ofList (compact limit text.toList)

/-- The first `most` names, each cut after `limit` characters, and how many more there are. -/
def previewList (names : List String) (most limit : Nat) : String :=
  let shown := ", ".intercalate ((names.take most).map (compactLine · limit))
  if names.length ≤ most then shown
  else s!"{shown} (+{names.length - most} more)"

end Preflight.Text
