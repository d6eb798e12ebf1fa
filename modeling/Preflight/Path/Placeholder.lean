import Preflight.Text.Ascii

/-!
# Placeholders for variables

A placeholder names a variable in one of three spellings: `$NAME`, the name
between braces after a dollar sign, and `%NAME%`. Expanding a text replaces its
placeholders from left to right by the values of their variables; values are
inserted as they are, and a placeholder without a value stays as it was written.
-/

set_option autoImplicit false

namespace Preflight

open Preflight.Text

/-- The spellings of a placeholder. -/
inductive Placeholder.Spelling where
  | braced
  | bare
  | percent
deriving Repr, DecidableEq

/-- A placeholder: a name in one of three spellings. -/
structure Placeholder where
  spelling : Placeholder.Spelling
  name : List Char
deriving Repr, DecidableEq

namespace Placeholder

def text (p : Placeholder) : List Char :=
  match p.spelling with
  | .braced => '$' :: '\x7b' :: p.name ++ ['\x7d']
  | .bare => '$' :: p.name
  | .percent => '%' :: p.name ++ ['%']

/-- The placeholder at the start of a text and what follows it. -/
def ofText? : List Char → Option (Placeholder × List Char)
  | '$' :: '\x7b' :: s =>
    match identifier? s with
    | some (name, '\x7d' :: rest) => some (⟨.braced, name⟩, rest)
    | _ => none
  | '$' :: s => (identifier? s).map fun (name, rest) => (⟨.bare, name⟩, rest)
  | '%' :: s =>
    match identifier? s with
    | some (name, '%' :: rest) => some (⟨.percent, name⟩, rest)
    | _ => none
  | _ => none

/-- An identifier and what follows it make up the text. -/
theorem identifier?_eq {s name rest : List Char} (h : identifier? s = some (name, rest)) :
    s = name ++ rest := by
  cases s with
  | nil => simp [identifier?] at h
  | cons c s =>
    simp only [identifier?] at h
    split at h
    · obtain ⟨rfl, rfl⟩ : c :: s.takeWhile isIdentifierPart = name ∧ s.dropWhile isIdentifierPart = rest := by
        simpa using h
      simp [List.takeWhile_append_dropWhile]
    · simp at h

/-- A placeholder and what follows it make up the text. -/
theorem ofText?_eq {s rest : List Char} {p : Placeholder} (h : ofText? s = some (p, rest)) :
    s = p.text ++ rest := by
  unfold ofText? at h
  split at h
  · split at h
    · rename_i hid
      obtain ⟨rfl, rfl⟩ := by simpa using h
      simp [text, identifier?_eq hid]
    · simp at h
  · obtain ⟨⟨name, rest'⟩, hid, heq⟩ := Option.map_eq_some_iff.1 h
    obtain ⟨rfl, rfl⟩ := by simpa using heq
    simp [text, identifier?_eq hid]
  · split at h
    · rename_i hid
      obtain ⟨rfl, rfl⟩ := by simpa using h
      simp [text, identifier?_eq hid]
    · simp at h
  · simp at h

/-- What follows a placeholder is shorter than the text. -/
theorem length_lt_of_ofText? {s rest : List Char} {p : Placeholder} (h : ofText? s = some (p, rest)) :
    rest.length < s.length := by
  have hpos : 0 < p.text.length := by
    unfold text
    split <;> simp
  rw [ofText?_eq h, List.length_append]
  omega

/-- Replace the placeholders of a text, leftmost first; those without a value stay. -/
def expand (lookup : List Char → Option (List Char)) : List Char → List Char
  | [] => []
  | c :: tail =>
    match h : ofText? (c :: tail) with
    | some (p, rest) =>
      have : rest.length ≤ tail.length := Nat.le_of_lt_succ (length_lt_of_ofText? h)
      (lookup p.name).getD p.text ++ expand lookup rest
    | none => c :: expand lookup tail
termination_by s => s.length

end Placeholder

end Preflight
