import Preflight.Text.Hex
import Preflight.Toml.Layout

/-!
# Strings of TOML

There are four kinds of strings: basic ones between double quotes, in which a
backslash starts an escape, literal ones between single quotes, in which every
character stands for itself, and both over several lines between three quotes.
A line ending just after three opening quotes does not belong to the string. Of
more than three closing quotes up to two belong to it.
-/

set_option autoImplicit false

namespace Preflight.Toml

/-! ### Escapes -/

/-- The character with a number; numbers of surrogates and numbers above all characters have none. -/
def charOf? (n : Nat) : Option Char :=
  if n.isValidChar then some (Char.ofNat n) else none

/-- The character that a one-letter escape denotes. -/
def letterEscape? : Char → Option Char
  | 'b' => some '\x08'
  | 't' => some '\t'
  | 'n' => some '\n'
  | 'f' => some '\x0c'
  | 'r' => some '\r'
  | 'e' => some '\x1b'
  | '"' => some '"'
  | '\\' => some '\\'
  | _ => none

/-- The number of hexadecimal digits after the letter of an escape by number. -/
def escapeWidth? : Char → Option Nat
  | 'x' => some 2
  | 'u' => some 4
  | 'U' => some 8
  | _ => none

/-- The character that an escape denotes and what follows it; the backslash has been read. -/
def escape? : List Char → Option (Char × List Char)
  | [] => none
  | c :: rest =>
    match escapeWidth? c with
    | none => (letterEscape? c).map (·, rest)
    | some width =>
      if rest.length < width then none
      else ((Text.hexNumber? (rest.take width)).bind charOf?).map (·, rest.drop width)

/-- What follows an escape is shorter than the escape with it. -/
theorem length_lt_of_escape? {s rest : List Char} {c : Char} (h : escape? s = some (c, rest)) :
    rest.length < s.length := by
  cases s with
  | nil => simp [escape?] at h
  | cons d s =>
    simp only [escape?] at h
    split at h
    · obtain ⟨_, _, heq⟩ := Option.map_eq_some_iff.1 h
      obtain ⟨_, rfl⟩ := Prod.mk.inj heq
      simp
    · split at h
      · simp at h
      · obtain ⟨_, _, heq⟩ := Option.map_eq_some_iff.1 h
        obtain ⟨_, rfl⟩ := Prod.mk.inj heq
        simp only [List.length_drop, List.length_cons]
        omega

/-! ### Strings on one line -/

/-- A string read from the start of a text, with the rest of the text. -/
abbrev Reading := Option (List Char × List Char)

/-- Put characters before those of a string. -/
def Reading.cons (cs : List Char) (r : Reading) : Reading :=
  r.map fun (body, rest) => (cs ++ body, rest)

/-- A basic string up to its closing quote; the opening quote has been read. -/
def basicBody : List Char → Reading
  | [] => none
  | c :: tail =>
    if c = '"' then some ([], tail)
    else if c = '\\' then
      match h : escape? tail with
      | none => none
      | some (d, rest) =>
        have : rest.length ≤ tail.length := Nat.le_of_lt (length_lt_of_escape? h)
        (basicBody rest).cons [d]
    else if isPrintable c then (basicBody tail).cons [c]
    else none
termination_by s => s.length

/-- A literal string up to its closing quote; the opening quote has been read. -/
def literalBody : List Char → Reading
  | [] => none
  | c :: rest =>
    if c = '\'' then some ([], rest)
    else if isPrintable c then (literalBody rest).cons [c]
    else none

/-! ### Strings over several lines -/

/-- The text without a line ending at its start. -/
def dropNewline (s : List Char) : List Char :=
  (newline? s).getD s

/-- The quotes that belong to a string although they follow three quotes, and the text after them. -/
def finalQuotes (quote : Char) : List Char → List Char × List Char
  | a :: b :: rest =>
    if a = quote then if b = quote then ([a, b], rest) else ([a], b :: rest) else ([], a :: b :: rest)
  | [a] => if a = quote then ([a], []) else ([], [a])
  | [] => ([], [])

/-- The text without blanks and line endings at its start. -/
def dropBlankLines : List Char → List Char
  | '\r' :: '\n' :: rest => dropBlankLines rest
  | c :: rest => if isBlank c || c == '\n' then dropBlankLines rest else c :: rest
  | [] => []

/-- The text after an escaped line ending: after it, the blanks before it and all blanks and line endings that follow. -/
def continuation? (s : List Char) : Option (List Char) :=
  (newline? (skipBlanks s)).map dropBlankLines

/-- A text does not grow when blanks and line endings are dropped. -/
theorem length_dropBlankLines (s : List Char) : (dropBlankLines s).length ≤ s.length := by
  fun_induction dropBlankLines s with
  | case1 rest ih => simp only [List.length_cons]; omega
  | case2 c rest _ _ ih => simp only [List.length_cons]; omega
  | case3 => simp
  | case4 => simp

/-- What follows an escaped line ending is not longer than the text with it. -/
theorem length_le_of_continuation? {s rest : List Char} (h : continuation? s = some rest) :
    rest.length ≤ s.length := by
  obtain ⟨t, ht, rfl⟩ := Option.map_eq_some_iff.1 h
  have hblanks : (skipBlanks s).length ≤ s.length := (List.dropWhile_sublist _).length_le
  have hdrop := length_dropBlankLines t
  have hnewline : t.length ≤ (skipBlanks s).length := by
    unfold newline? at ht
    split at ht
    · rename_i heq
      simp_all
    · rename_i heq
      simp_all
      omega
    · simp at ht
  omega

/-- A basic string over several lines up to its closing quotes; the opening quotes have been read. -/
def textBody : List Char → Reading
  | [] => none
  | '"' :: '"' :: '"' :: rest => some (finalQuotes '"' rest)
  | '\r' :: '\n' :: rest => (textBody rest).cons ['\r', '\n']
  | c :: tail =>
    if c = '\\' then
      match h : continuation? tail with
      | some rest =>
        have : rest.length ≤ tail.length := length_le_of_continuation? h
        textBody rest
      | none =>
        match h : escape? tail with
        | none => none
        | some (d, rest) =>
          have : rest.length ≤ tail.length := Nat.le_of_lt (length_lt_of_escape? h)
          (textBody rest).cons [d]
    else if c = '\n' ∨ isPrintable c then (textBody tail).cons [c]
    else none
termination_by s => s.length

/-- A literal string over several lines up to its closing quotes; the opening quotes have been read. -/
def literalTextBody : List Char → Reading
  | [] => none
  | '\'' :: '\'' :: '\'' :: rest => some (finalQuotes '\'' rest)
  | '\r' :: '\n' :: rest => (literalTextBody rest).cons ['\r', '\n']
  | c :: rest =>
    if c = '\n' ∨ isPrintable c then (literalTextBody rest).cons [c]
    else none

/-! ### Any string -/

/-- A string of one of the two kinds on one line. -/
def lineString? : List Char → Reading
  | '"' :: rest => basicBody rest
  | '\'' :: rest => literalBody rest
  | _ => none

/-- A string of any kind. -/
def anyString? : List Char → Reading
  | '"' :: '"' :: '"' :: rest => textBody (dropNewline rest)
  | '\'' :: '\'' :: '\'' :: rest => literalTextBody (dropNewline rest)
  | s => lineString? s

end Preflight.Toml
