import Preflight.Header.Quoted

/-!
# Inline lists of headers

The inside of `[...]`, cut at the commas that stand outside quotes and outside
parentheses, so that `Bash(git add, git commit), Read` has two items. Items are
unquoted, and empty ones are dropped.
-/

set_option autoImplicit false

namespace Preflight.Header

open Preflight.Text

/-- Where a character of an inline list stands: inside a quote that is still open, or under a number of open parentheses. -/
structure Nesting where
  quote : Option Char
  depth : Nat
deriving Repr, DecidableEq

namespace Nesting

/-- Outside quotes and parentheses. -/
def outside : Nesting := ⟨none, 0⟩

/-- The nesting after one more character. Inside a quote only that quote counts; a closing parenthesis without an opening one does not. -/
def next (n : Nesting) (c : Char) : Nesting :=
  match n.quote with
  | some q => if c = q then { n with quote := none } else n
  | none =>
    if c = '"' ∨ c = '\'' then { n with quote := some c }
    else if c = '(' then { n with depth := n.depth + 1 }
    else if c = ')' then { n with depth := n.depth - 1 }
    else n

end Nesting

/-- The pieces between the commas that stand outside; one more than there are such commas. -/
def pieces : Nesting → List Char → List (List Char)
  | _, [] => [[]]
  | n, c :: rest =>
    if c = ',' ∧ n = .outside then [] :: pieces n rest
    else
      match pieces (n.next c) rest with
      | [] => [[c]]
      | piece :: more => (c :: piece) :: more

/-- The items of an inline list, given what stands between its brackets. -/
def inlineItems (inside : List Char) : List (List Char) :=
  ((pieces .outside inside).map unquote).filter (!·.isEmpty)

end Preflight.Header
