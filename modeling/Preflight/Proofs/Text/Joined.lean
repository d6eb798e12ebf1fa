/-!
# Texts joined by a separator

What is joined has the characters of its parts and of the separators
(`not_mem_intercalate`, `count_intercalate`), and what is cut has none of the characters
at which it is cut (`not_of_mem_splitOnP`). Parts may hold the separator themselves;
they can be told apart all the same if it is known how often each of them has it
(`intercalate_inj_of_counts`).
-/

set_option autoImplicit false

namespace Preflight.Text

variable {α : Type} {x : α}

/-- What is not in the separator is in none of the joined parts exactly if it is not in the whole. -/
theorem not_mem_intercalate_iff {separator : List α} (hseparator : x ∉ separator)
    (ls : List (List α)) : x ∉ separator.intercalate ls ↔ ∀ l ∈ ls, x ∉ l := by
  induction ls with
  | nil => simp
  | cons l ls ih =>
    cases ls with
    | nil => rw [List.intercalate_singleton, List.forall_mem_singleton]
    | cons m ls =>
      rw [List.intercalate_cons_cons, List.mem_append, List.mem_append, not_or, not_or, ih,
        List.forall_mem_cons (l := m :: ls), and_iff_left hseparator]

/-- What is neither in the separator nor in the parts is not in the whole. -/
theorem not_mem_intercalate {separator : List α} (hseparator : x ∉ separator) {ls : List (List α)}
    (hls : ∀ l ∈ ls, x ∉ l) : x ∉ separator.intercalate ls :=
  (not_mem_intercalate_iff hseparator ls).2 hls

/-- A text that is cut at certain characters is cut into parts without them. -/
theorem not_of_mem_splitOnP {p : α → Bool} {s part : List α} (h : part ∈ s.splitOnP p) :
    ∀ a ∈ part, p a = false := by
  induction s generalizing part with
  | nil =>
    rw [List.splitOnP_nil, List.mem_singleton] at h
    simp [h]
  | cons a s ih =>
    rw [List.splitOnP_cons_eq_if_modifyHead] at h
    split at h
    · rcases List.mem_cons.1 h with rfl | h
      · simp
      · exact ih h
    · rename_i ha
      cases hs : s.splitOnP p with
      | nil => exact absurd hs (List.splitOnP_ne_nil p s)
      | cons first rest =>
        rw [hs, List.modifyHead_cons] at h
        rw [hs] at ih
        rcases List.mem_cons.1 h with rfl | h
        · exact List.forall_mem_cons.2 ⟨Bool.not_eq_true _ ▸ ha, ih List.mem_cons_self⟩
        · exact ih (List.mem_cons_of_mem _ h)

variable [DecidableEq α]

/-- A text is told from what comes after it by how often it has the separator between the two. -/
theorem append_cons_inj_of_count {a b r t : List α} (h : a ++ x :: r = b ++ x :: t)
    (hcount : a.count x = b.count x) : a = b ∧ r = t := by
  have hle {a b r t : List α} (h : a ++ x :: r = b ++ x :: t)
      (hcount : a.count x = b.count x) (hlength : a.length ≤ b.length) : a = b := by
    have hprefix : a <+: b := by
      refine List.prefix_of_prefix_length_le ?_ (List.prefix_append b (x :: t)) hlength
      rw [← h]
      exact List.prefix_append a (x :: r)
    obtain ⟨more, rfl⟩ := hprefix
    rw [List.append_assoc, List.append_cancel_left_eq] at h
    cases more with
    | nil => rw [List.append_nil]
    | cons c more =>
      rw [List.cons_append, List.cons.injEq] at h
      rw [← h.1, List.count_append, List.count_cons_self] at hcount
      omega
  have hab : a = b := by
    rcases Nat.le_total a.length b.length with hlength | hlength
    · exact hle h hcount hlength
    · exact (hle h.symm hcount.symm hlength).symm
  rw [hab, List.append_cancel_left_eq, List.cons.injEq] at h
  exact ⟨hab, h.2⟩

/-- What is joined has the separators of its parts and one between any two of them. -/
theorem count_intercalate {ls : List (List α)} (hne : ls ≠ []) :
    ([x].intercalate ls).count x + 1 = ls.flatten.count x + ls.length := by
  induction ls with
  | nil => exact absurd rfl hne
  | cons l ls ih =>
    cases ls with
    | nil => simp
    | cons m ls =>
      have hrest := ih (by simp)
      rw [List.intercalate_cons_cons, List.flatten_cons, List.length_cons]
      simp only [List.count_append, List.count_cons_self, List.count_nil]
      omega

/-- Texts that are joined by a separator can be told apart by how often each has it. -/
theorem intercalate_inj_of_counts {ls ms : List (List α)}
    (h : [x].intercalate ls = [x].intercalate ms)
    (hcounts : ls.map (List.count x) = ms.map (List.count x)) : ls = ms := by
  induction ls generalizing ms with
  | nil =>
    rw [List.map_nil] at hcounts
    exact (List.map_eq_nil_iff.1 hcounts.symm).symm
  | cons l ls ih =>
    cases ms with
    | nil => simp at hcounts
    | cons m ms =>
      rw [List.map_cons, List.map_cons, List.cons.injEq] at hcounts
      obtain ⟨hcount, hcounts⟩ := hcounts
      have hlength : ls.length = ms.length := by
        simpa using congrArg List.length hcounts
      cases ls with
      | nil =>
        obtain rfl : ms = [] := List.length_eq_zero_iff.1 hlength.symm
        simpa using h
      | cons l' ls =>
        obtain ⟨m', ms, rfl⟩ := List.exists_cons_of_ne_nil
          (List.ne_nil_of_length_pos (by rw [← hlength]; simp) : ms ≠ [])
        rw [List.intercalate_cons_cons, List.intercalate_cons_cons, List.append_assoc,
          List.append_assoc, List.singleton_append, List.singleton_append] at h
        obtain ⟨hlm, hrest⟩ := append_cons_inj_of_count h hcount
        rw [hlm, ih hrest hcounts]

end Preflight.Text
