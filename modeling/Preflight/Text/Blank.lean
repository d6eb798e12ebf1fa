/-!
# Blank characters and trimming

Which characters count as blank, and the three ways of cutting text at them:
dropping them at the start, at the end, and splitting at runs of them. Blank
means the Unicode property `White_Space`; it is wider than the blank of `Char.isWhitespace`,
which knows ASCII only.
-/

set_option autoImplicit false

namespace Preflight.Text

/-- A character with the Unicode property `White_Space`: 25 code points in ten ranges. -/
def isBlank (c : Char) : Bool :=
  let n := c.toNat
  (0x9 ≤ n && n ≤ 0xD) || n == 0x20 || n == 0x85 || n == 0xA0 || n == 0x1680 ||
    (0x2000 ≤ n && n ≤ 0x200A) || n == 0x2028 || n == 0x2029 || n == 0x202F ||
    n == 0x205F || n == 0x3000

/-- Drop the longest final part whose elements all satisfy `p`. -/
def dropEndWhile {α : Type} (p : α → Bool) : List α → List α
  | [] => []
  | a :: rest =>
    match dropEndWhile p rest with
    | [] => if p a then [] else [a]
    | kept => a :: kept

/-- The text without its leading blanks. -/
def trimStart (s : List Char) : List Char :=
  s.dropWhile isBlank

/-- The text without its trailing blanks. -/
def trimEnd (s : List Char) : List Char :=
  dropEndWhile isBlank s

/-- The text without leading and trailing blanks. -/
def trim (s : List Char) : List Char :=
  trimEnd (trimStart s)

/-- The maximal runs of characters that are not blank, in order. -/
def words (s : List Char) : List (List Char) :=
  (s.splitOnP isBlank).filter (!·.isEmpty)

end Preflight.Text
