/-!
# Parts of a text

Searching for a part of a text, replacing it, and cutting a known start or end
off. All functions work on characters; a replaced part is never scanned again.
-/

set_option autoImplicit false

namespace Preflight.Text

/-- Whether `part` occurs in the text as a run of neighbouring characters. -/
def occurs (part : List Char) : List Char → Bool
  | [] => part.isEmpty
  | c :: rest => part.isPrefixOf (c :: rest) || occurs part rest

/-- The text after an initial `part`, if it starts with it. -/
def dropStart? : List Char → List Char → Option (List Char)
  | [], s => some s
  | _ :: _, [] => none
  | p :: part, c :: s => if p = c then dropStart? part s else none

/-- The text before a final `part`, if it ends with it. -/
def dropEnd? (part s : List Char) : Option (List Char) :=
  (dropStart? part.reverse s.reverse).map List.reverse

/-- Scan of `replaceAll`; the first `skip` characters belong to a part already replaced. -/
def replaceScan (part new : List Char) : Nat → List Char → List Char
  | _, [] => []
  | skip + 1, _ :: rest => replaceScan part new skip rest
  | 0, c :: rest =>
    if part.isPrefixOf (c :: rest) then new ++ replaceScan part new (part.length - 1) rest
    else c :: replaceScan part new 0 rest

/-- Replace the occurrences of a non-empty `part` by `new`, leftmost first and without overlap. -/
def replaceAll (part new s : List Char) : List Char :=
  replaceScan part new 0 s

end Preflight.Text
