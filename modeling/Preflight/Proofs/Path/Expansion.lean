import Mathlib.Data.List.Basic
import Preflight.Path.Placeholder
import Preflight.Proofs.Text.Digits

/-!
# Expanding a text in pieces

A placeholder is written with identifier characters, braces and percent signs after
its first character. Where a text goes on with any other character, no placeholder
that starts before goes on either: the two pieces are expanded on their own
(`expand_append`). Since a separator can stand in no placeholder, what is written
before a separator and what is written after it never make up a placeholder together
(`expand_append_separator`). A placeholder that does not go on is expanded to its value,
whatever it is followed by (`expand_text_append`).
-/

set_option autoImplicit false

namespace Preflight.Placeholder

open Preflight.Text

/-- A text that does not go on with a character that can stand in a placeholder after its first. -/
def Interrupts (t : List Char) : Prop :=
  ∀ c ∈ t.head?, isIdentifierPart c = false ∧ c ≠ '\x7b' ∧ c ≠ '\x7d' ∧ c ≠ '%'

/-- A separator interrupts a placeholder. -/
theorem interrupts_separator (t : List Char) : Interrupts ('/' :: t) := by
  intro c hc
  obtain rfl : '/' = c := by simpa using hc
  decide

/-! ### Identifiers -/

/-- The identifier at the start of a text ends before anything that is no part of one. -/
theorem identifier?_append (s : List Char) {t : List Char} (ht : Stops isIdentifierPart t) :
    identifier? (s ++ t) = (identifier? s).map fun e => (e.1, e.2 ++ t) := by
  cases s with
  | nil =>
    cases t with
    | nil => rfl
    | cons c t =>
      have hpart := ht c rfl
      have hstart : isIdentifierStart c = false := by
        unfold isIdentifierPart at hpart
        exact (Bool.or_eq_false_iff.1 hpart).1
      simp [identifier?, hstart]
  | cons c s =>
    rw [List.cons_append, identifier?, identifier?, takeWhile_append_stops s ht,
      dropWhile_append_stops s ht]
    split
    · rfl
    · rfl

/-! ### Placeholders -/

/-- The placeholder whose name comes first in a text and is closed by a character. -/
def closed? (spelling : Spelling) (close : Char) (s : List Char) :
    Option (Placeholder × List Char) :=
  match identifier? s with
  | some (name, c :: rest) => if c = close then some (⟨spelling, name⟩, rest) else none
  | _ => none

/-- A placeholder with a closing character is read alike if something follows that does not go on with
it. -/
theorem closed?_append (spelling : Spelling) {close : Char} (s : List Char) {t : List Char}
    (hstops : Stops isIdentifierPart t) (hclose : t.head? ≠ some close) :
    closed? spelling close (s ++ t) = (closed? spelling close s).map fun e => (e.1, e.2 ++ t) := by
  unfold closed?
  rw [identifier?_append s hstops]
  cases identifier? s with
  | none => rfl
  | some e =>
    obtain ⟨name, rest⟩ := e
    cases rest with
    | cons c rest => by_cases hc : c = close <;> simp [hc]
    | nil =>
      cases t with
      | nil => rfl
      | cons c t =>
        have hc : c ≠ close := fun heq => hclose (congrArg some heq)
        simp [hc]

/-- A name with the closing character after it is read as a placeholder. -/
theorem closed?_close (spelling : Spelling) {close : Char} {name : List Char}
    (hname : identifier? name = some (name, [])) (hclose : isIdentifierPart close = false)
    (rest : List Char) :
    closed? spelling close (name ++ close :: rest) = some (⟨spelling, name⟩, rest) := by
  have hstops : Stops isIdentifierPart (close :: rest) := by
    intro c hc
    obtain rfl : close = c := by simpa using hc
    exact hclose
  unfold closed?
  rw [identifier?_append name hstops, hname]
  simp

/-- After a dollar sign and a brace a name between braces is read. -/
theorem ofText?_braced (s : List Char) :
    ofText? ('$' :: '\x7b' :: s) = closed? .braced '\x7d' s := by
  rw [ofText?, closed?]
  cases identifier? s with
  | none => rfl
  | some e =>
    obtain ⟨name, rest⟩ := e
    cases rest with
    | nil => rfl
    | cons c rest => by_cases hc : c = '\x7d' <;> simp [hc]

/-- After a per cent sign a name between such signs is read. -/
theorem ofText?_percent (s : List Char) : ofText? ('%' :: s) = closed? .percent '%' s := by
  rw [ofText?, closed?]
  cases identifier? s with
  | none => rfl
  | some e =>
    obtain ⟨name, rest⟩ := e
    cases rest with
    | nil => rfl
    | cons c rest => by_cases hc : c = '%' <;> simp [hc]

/-- After a dollar sign without a brace a bare name is read. -/
theorem ofText?_bare {s : List Char} (h : s.head? ≠ some '\x7b') :
    ofText? ('$' :: s) = (identifier? s).map fun e => (⟨.bare, e.1⟩, e.2) := by
  unfold ofText?
  split
  · rename_i heq
    cases heq
    exact absurd rfl h
  · rename_i heq
    cases heq
    rfl
  · rename_i heq
    cases heq
  · rename_i h₁ _
    exact absurd rfl (h₁ s)

/-- No placeholder starts with another character. -/
theorem ofText?_of_ne {c : Char} (hdollar : c ≠ '$') (hpercent : c ≠ '%') (s : List Char) :
    ofText? (c :: s) = none := by
  unfold ofText?
  split
  · rename_i heq
    cases heq
    exact absurd rfl hdollar
  · rename_i heq
    cases heq
    exact absurd rfl hdollar
  · rename_i heq
    cases heq
    exact absurd rfl hpercent
  · rfl

/-- The placeholder at the start of a text ends before anything that interrupts placeholders. -/
theorem ofText?_append {s t : List Char} (hs : s ≠ []) (ht : Interrupts t) :
    ofText? (s ++ t) = (ofText? s).map fun e => (e.1, e.2 ++ t) := by
  have hstops : Stops isIdentifierPart t := fun c hc => (ht c hc).1
  obtain ⟨c, s, rfl⟩ := List.exists_cons_of_ne_nil hs
  rw [List.cons_append]
  by_cases hdollar : c = '$'
  · subst hdollar
    by_cases hbrace : s.head? = some '\x7b'
    · obtain ⟨s, rfl⟩ := List.head?_eq_some_iff.1 hbrace
      rw [List.cons_append, ofText?_braced, ofText?_braced]
      exact closed?_append .braced s hstops fun h => (ht _ h).2.2.1 rfl
    · have hbrace' : (s ++ t).head? ≠ some '\x7b' := by
        cases s with
        | nil => exact fun h => (ht _ h).2.1 rfl
        | cons d s => exact hbrace
      rw [ofText?_bare hbrace, ofText?_bare hbrace', identifier?_append s hstops, Option.map_map,
        Option.map_map]
      rfl
  · by_cases hpercent : c = '%'
    · subst hpercent
      rw [ofText?_percent, ofText?_percent]
      exact closed?_append .percent s hstops fun h => (ht _ h).2.2.2 rfl
    · rw [ofText?_of_ne hdollar hpercent, ofText?_of_ne hdollar hpercent]
      rfl

/-- A placeholder is read back from what is written for it, unless a name that nothing closes goes
on with what follows. -/
theorem ofText?_text_append {p : Placeholder} (hname : identifier? p.name = some (p.name, []))
    {rest : List Char} (hrest : p.spelling = .bare → Stops isIdentifierPart rest) :
    ofText? (p.text ++ rest) = some (p, rest) := by
  obtain ⟨spelling, name⟩ := p
  have hname : identifier? name = some (name, []) := hname
  cases spelling with
  | braced =>
    have htext : text ⟨.braced, name⟩ ++ rest = '$' :: '\x7b' :: (name ++ '\x7d' :: rest) := by
      simp [text]
    rw [htext, ofText?_braced]
    exact closed?_close .braced hname (by decide) rest
  | percent =>
    have htext : text ⟨.percent, name⟩ ++ rest = '%' :: (name ++ '%' :: rest) := by simp [text]
    rw [htext, ofText?_percent]
    exact closed?_close .percent hname (by decide) rest
  | bare =>
    have hbrace : (name ++ rest).head? ≠ some '\x7b' := by
      cases name with
      | nil => cases hname
      | cons c name =>
        intro h
        obtain rfl : c = '\x7b' := by simpa using h
        have hnone : identifier? ('\x7b' :: name) = none := rfl
        rw [hnone] at hname
        cases hname
    have htext : text ⟨.bare, name⟩ ++ rest = '$' :: (name ++ rest) := rfl
    rw [htext, ofText?_bare hbrace, identifier?_append name (hrest rfl), hname]
    rfl

/-! ### Expanded texts -/

section

variable (lookup : List Char → Option (List Char))

/-- A placeholder is replaced by its value, or kept as it stands. -/
theorem expand_of_ofText? {s rest : List Char} {p : Placeholder} (h : ofText? s = some (p, rest)) :
    expand lookup s = (lookup p.name).getD p.text ++ expand lookup rest := by
  cases s with
  | nil => cases h
  | cons c s =>
    rw [expand]
    split
    · rename_i h'
      rw [h] at h'
      cases h'
      rfl
    · rename_i h'
      rw [h] at h'
      cases h'

/-- A character that starts no placeholder is kept. -/
theorem expand_cons_of_eq_none {c : Char} {s : List Char} (h : ofText? (c :: s) = none) :
    expand lookup (c :: s) = c :: expand lookup s := by
  rw [expand]
  split
  · rename_i h'
    rw [h] at h'
    cases h'
  · rfl

/-- A text is expanded in pieces wherever it can be cut outside of placeholders. -/
theorem expand_append (s : List Char) {t : List Char} (ht : Interrupts t) :
    expand lookup (s ++ t) = expand lookup s ++ expand lookup t := by
  fun_induction expand lookup s with
  | case1 => rfl
  | case2 c s p rest h hlength ih =>
    have happend := ofText?_append (List.cons_ne_nil c s) ht
    rw [h] at happend
    rw [expand_of_ofText? lookup happend, ih, List.append_assoc]
  | case3 c s h ih =>
    have happend := ofText?_append (List.cons_ne_nil c s) ht
    rw [h] at happend
    have hstep : expand lookup (c :: s ++ t) = c :: expand lookup (s ++ t) :=
      expand_cons_of_eq_none lookup happend
    rw [hstep, ih, List.cons_append]

/-- The parts of a path are expanded on their own. -/
theorem expand_append_separator (s t : List Char) :
    expand lookup (s ++ '/' :: t) = expand lookup s ++ '/' :: expand lookup t := by
  have hnone : ofText? ('/' :: t) = none := ofText?_of_ne (by decide) (by decide) t
  rw [expand_append lookup s (interrupts_separator t), expand_cons_of_eq_none lookup hnone]

/-- A placeholder at the start of a text is expanded to the value of its variable. -/
theorem expand_text_append {p : Placeholder} (hname : identifier? p.name = some (p.name, []))
    {t : List Char} (ht : p.spelling = .bare → Stops isIdentifierPart t) :
    expand lookup (p.text ++ t) = (lookup p.name).getD p.text ++ expand lookup t :=
  expand_of_ofText? lookup (ofText?_text_append hname ht)

/-- A placeholder that makes up a text is expanded to the value of its variable. -/
theorem expand_text {p : Placeholder} (hname : identifier? p.name = some (p.name, [])) :
    expand lookup p.text = (lookup p.name).getD p.text := by
  have hexpand := expand_text_append lookup hname fun _ => stops_nil isIdentifierPart
  rwa [List.append_nil, expand, List.append_nil] at hexpand

/-- What cannot start a placeholder stays. -/
theorem expand_literal_append {s : List Char} (hdollar : '$' ∉ s) (hpercent : '%' ∉ s)
    (t : List Char) : expand lookup (s ++ t) = s ++ expand lookup t := by
  induction s with
  | nil => rfl
  | cons c s ih =>
    rw [List.mem_cons, not_or] at hdollar hpercent
    have hnone : ofText? (c :: (s ++ t)) = none :=
      ofText?_of_ne (Ne.symm hdollar.1) (Ne.symm hpercent.1) (s ++ t)
    rw [List.cons_append, expand_cons_of_eq_none lookup hnone, ih hdollar.2 hpercent.2]
    rfl

end

end Preflight.Placeholder
