import Preflight.Header.InlineList
import Preflight.Proofs.Header.Quoting
import Preflight.Proofs.Text.Joined

/-!
# Where inline lists are cut

An inline list is cut at the commas that stand outside. A text that is read from some
nesting on is one piece if none of its commas stands outside (`Nesting.Unbroken`), and a
comma after it ends the piece if the nesting is back outside there. So texts joined by
commas are cut at exactly these commas if and only if each of them is unbroken and each
but the last leads back outside (`pieces_intercalate_iff`).

No other cuts can give the same items: every piece keeps its commas when it is unquoted,
so the number of commas in the items tells where the cuts were. An inline list of written
items therefore has these items exactly if it is cut where they were joined
(`inlineItems_intercalate_iff`).
-/

set_option autoImplicit false

namespace Preflight.Header

open Preflight.Text

/-! ### Pieces -/

namespace Nesting

/-- The nesting after a text. -/
def after (n : Nesting) (s : List Char) : Nesting :=
  s.foldl next n

/-- The nesting after two texts is that after the second, from the nesting after the first. -/
theorem after_append (n : Nesting) (s t : List Char) : n.after (s ++ t) = (n.after s).after t :=
  List.foldl_append ..

/-- No comma of a text stands outside if the text is read from a nesting on. -/
def Unbroken : Nesting → List Char → Prop
  | _, [] => True
  | n, c :: rest => ¬(c = ',' ∧ n = .outside) ∧ (n.next c).Unbroken rest

instance decidableUnbroken : (n : Nesting) → (s : List Char) → Decidable (n.Unbroken s)
  | _, [] => inferInstanceAs (Decidable True)
  | n, c :: rest =>
    have := decidableUnbroken (n.next c) rest
    inferInstanceAs (Decidable (¬(c = ',' ∧ n = .outside) ∧ (n.next c).Unbroken rest))

/-- Two texts are unbroken exactly if each of them is, from where it starts. -/
theorem unbroken_append_iff (n : Nesting) (s t : List Char) :
    n.Unbroken (s ++ t) ↔ n.Unbroken s ∧ (n.after s).Unbroken t := by
  induction s generalizing n with
  | nil => simp [Unbroken, after]
  | cons c s ih => rw [List.cons_append, Unbroken, Unbroken, ih, and_assoc]; rfl

end Nesting

/-- An unbroken text is one piece. -/
theorem pieces_of_unbroken {n : Nesting} {s : List Char} (h : n.Unbroken s) :
    pieces n s = [s] := by
  induction s generalizing n with
  | nil => rfl
  | cons c s ih => rw [pieces, if_neg h.1, ih h.2]

/-- A comma outside quotes and parentheses ends an unbroken piece. -/
theorem pieces_append_comma {n : Nesting} {s : List Char} (h : n.Unbroken s)
    (hend : n.after s = .outside) (rest : List Char) :
    pieces n (s ++ ',' :: rest) = s :: pieces .outside rest := by
  induction s generalizing n with
  | nil =>
    obtain rfl : n = .outside := hend
    rw [List.nil_append, pieces, if_pos ⟨rfl, rfl⟩]
  | cons c s ih => rw [List.cons_append, pieces, if_neg h.1, ih h.2 hend]

/-- The first piece ends with the text or before the first comma that stands outside. -/
theorem exists_first_piece (n : Nesting) (s : List Char) :
    (n.Unbroken s ∧ pieces n s = [s]) ∨
      ∃ first rest, s = first ++ ',' :: rest ∧ n.Unbroken first ∧ n.after first = .outside ∧
        pieces n s = first :: pieces .outside rest := by
  induction s generalizing n with
  | nil => exact .inl ⟨trivial, rfl⟩
  | cons c s ih =>
    by_cases hcomma : c = ',' ∧ n = .outside
    · obtain ⟨rfl, rfl⟩ := hcomma
      exact .inr ⟨[], s, rfl, trivial, rfl, by rw [pieces, if_pos ⟨rfl, rfl⟩]⟩
    · rcases ih (n.next c) with ⟨hunbroken, -⟩ | ⟨first, rest, rfl, hunbroken, hend, -⟩
      · have hall : n.Unbroken (c :: s) := ⟨hcomma, hunbroken⟩
        exact .inl ⟨hall, pieces_of_unbroken hall⟩
      · have hfirst : n.Unbroken (c :: first) := ⟨hcomma, hunbroken⟩
        exact .inr ⟨c :: first, rest, rfl, hfirst, hend, pieces_append_comma hfirst hend rest⟩

/-- There is always a piece, which may be empty. -/
theorem pieces_ne_nil (n : Nesting) (s : List Char) : pieces n s ≠ [] := by
  rcases exists_first_piece n s with ⟨-, hpieces⟩ | ⟨first, rest, -, -, -, hpieces⟩ <;>
    simp [hpieces]

/-- The pieces, joined by commas again, are the text. -/
theorem intercalate_pieces (n : Nesting) (s : List Char) : [','].intercalate (pieces n s) = s := by
  induction hlength : s.length using Nat.strong_induction_on generalizing n s with
  | _ length ih =>
    rcases exists_first_piece n s with ⟨-, hpieces⟩ | ⟨first, rest, hs, -, -, hpieces⟩
    · rw [hpieces, List.intercalate_singleton]
    · have hrest := ih rest.length (by rw [← hlength, hs]; simp; omega) .outside rest rfl
      obtain ⟨second, more, hmore⟩ := List.exists_cons_of_ne_nil (pieces_ne_nil .outside rest)
      rw [hmore] at hrest
      rw [hpieces, hmore, List.intercalate_cons_cons, hrest, hs, List.append_assoc,
        List.singleton_append]

/-- Texts joined by commas are cut where they were joined exactly if no comma of theirs stands
outside and every text but the last leads back outside. -/
theorem pieces_intercalate_iff {ps : List (List Char)} (hne : ps ≠ []) :
    pieces .outside ([','].intercalate ps) = ps ↔
      (∀ p ∈ ps, Nesting.outside.Unbroken p) ∧
        ∀ p ∈ ps.dropLast, Nesting.outside.after p = .outside := by
  induction ps with
  | nil => exact absurd rfl hne
  | cons p ps ih =>
    cases ps with
    | nil =>
      rw [List.intercalate_singleton]
      constructor
      · intro h
        rcases exists_first_piece .outside p with ⟨hunbroken, -⟩ | ⟨first, rest, -, -, -, hpieces⟩
        · simpa using hunbroken
        · rw [h, List.cons.injEq] at hpieces
          exact absurd hpieces.2.symm (pieces_ne_nil _ _)
      · rintro ⟨hunbroken, -⟩
        exact pieces_of_unbroken (hunbroken p List.mem_cons_self)
    | cons q ps =>
      have hmore := ih (by simp)
      rw [List.intercalate_cons_cons, List.append_assoc, List.singleton_append,
        List.dropLast_cons_cons]
      constructor
      · intro h
        rcases exists_first_piece .outside (p ++ ',' :: [','].intercalate (q :: ps)) with
          ⟨-, hpieces⟩ | ⟨first, rest, hs, hunbroken, hend, hpieces⟩
        · simp [h] at hpieces
        · rw [h, List.cons.injEq] at hpieces
          obtain ⟨rfl, hpieces⟩ := hpieces
          rw [List.append_cancel_left_eq, List.cons.injEq] at hs
          rw [← hs.2] at hpieces
          obtain ⟨hunbrokens, hends⟩ := hmore.1 hpieces.symm
          exact ⟨List.forall_mem_cons.2 ⟨hunbroken, hunbrokens⟩,
            List.forall_mem_cons.2 ⟨hend, hends⟩⟩
      · rintro ⟨hall, hinner⟩
        obtain ⟨hunbroken, hunbrokens⟩ := List.forall_mem_cons.1 hall
        obtain ⟨hend, hends⟩ := List.forall_mem_cons.1 hinner
        rw [pieces_append_comma hunbroken hend, hmore.2 ⟨hunbrokens, hends⟩]

/-! ### Items -/

/-- Reading pieces of their quotes leaves all their commas. -/
theorem count_comma_flatten_unquote (ls : List (List Char)) :
    (ls.map unquote).flatten.count ',' = ls.flatten.count ',' := by
  induction ls with
  | nil => rfl
  | cons l ls ih =>
    rw [List.map_cons, List.flatten_cons, List.flatten_cons, List.count_append, List.count_append,
      count_comma_unquote, ih]

/-- Written items that are joined by commas are the items of the list exactly if it is cut where
they were joined. -/
theorem inlineItems_intercalate_iff {ps : List (List Char)} (hne : ps ≠ [])
    (hitems : ∀ p ∈ ps, unquote p ≠ []) :
    inlineItems ([','].intercalate ps) = ps.map unquote ↔
      (∀ p ∈ ps, Nesting.outside.Unbroken p) ∧
        ∀ p ∈ ps.dropLast, Nesting.outside.after p = .outside := by
  have hcount (ls : List (List Char)) :
      (ls.map unquote).map (List.count ',') = ls.map (List.count ',') := by
    rw [List.map_map]
    exact List.map_congr_left fun l _ => count_comma_unquote l
  rw [← pieces_intercalate_iff hne, inlineItems]
  constructor
  · intro h
    generalize hpieces : pieces .outside ([','].intercalate ps) = ls at h
    have hjoin : [','].intercalate ls = [','].intercalate ps := by
      rw [← hpieces, intercalate_pieces]
    have hls : ls ≠ [] := hpieces ▸ pieces_ne_nil _ _
    -- the items have as many commas as the pieces, so there are as many pieces as items
    have hcommas : ls.flatten.count ',' = ps.flatten.count ',' := by
      rw [← count_comma_flatten_unquote ps, ← h, List.flatten_filter_not_isEmpty,
        count_comma_flatten_unquote]
    have hlength : ls.length = ps.length := by
      have hcountls := count_intercalate (x := ',') hls
      have hcountps := count_intercalate (x := ',') hne
      rw [hjoin] at hcountls
      omega
    have hkept : (ls.map unquote).filter (!·.isEmpty) = ls.map unquote := by
      apply List.filter_sublist.eq_of_length
      rw [h, List.length_map, List.length_map, hlength]
    refine intercalate_inj_of_counts hjoin ?_
    rw [← hcount ls, ← hcount ps, ← h, hkept]
  · intro h
    rw [h, List.filter_eq_self]
    intro item hitem
    obtain ⟨p, hp, rfl⟩ := List.mem_map.1 hitem
    simpa using hitems p hp

end Preflight.Header
