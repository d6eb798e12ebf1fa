/-!
# Physical lines

A byte-order mark at the start of a text does not belong to its first line.
A text is cut after each line feed, so its lines concatenate to the text
(`flatten_lines`). A final piece without a line feed is a line too; an empty
text has none.
-/

set_option autoImplicit false

namespace Preflight.Text

/-- The text without a byte-order mark at its start. -/
def dropMark : List Char → List Char
  | c :: rest => if c = '\ufeff' then rest else c :: rest
  | [] => []

/-- The lines of a text, each with its own line feed; only the last may lack one. -/
def lines : List Char → List (List Char)
  | [] => []
  | c :: rest =>
    if c = '\n' then [c] :: lines rest
    else
      match lines rest with
      | [] => [[c]]
      | line :: more => (c :: line) :: more

/-- The lines of a text, written one after the other, are the text. -/
theorem flatten_lines (s : List Char) : (lines s).flatten = s := by
  induction s with
  | nil => rfl
  | cons c rest ih =>
    unfold lines
    split
    · simp [ih]
    · split <;> simp_all

end Preflight.Text
