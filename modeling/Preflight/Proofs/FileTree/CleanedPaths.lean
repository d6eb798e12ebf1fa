import Preflight.Proofs.FileTree.Names
import Preflight.Proofs.Path.CleanedTexts
import Preflight.Proofs.Path.Climbing

/-!
# Looking cleaned paths up

Cleaning a path knows nothing of the files that are there, while a look-up goes from
one directory to the next and may fail at every part. But where a look-up succeeds it
ends at the names that the steps of the path keep (`eq_of_walk`), and on its way it has
been in every directory that leads there (`isReached_of_walk`). A cleaned path goes
through these names only; the one step up that may be left before them starts at the
root, which is its own parent. So a cleaned path leads where the path leads
(`leads_clean`).
-/

set_option autoImplicit false

namespace Preflight

/-! ### Where a look-up ends -/

namespace FileTree

variable {t : FileTree} {p : Path} {place next : List String}

/-- Every step of a look-up starts in a directory and stays there, goes to its parent or into an
entry. -/
theorem step_eq_ok {part : String} (h : t.step place part = .ok next) :
    (Path.Step.ofPart? part = none ∧ next = place) ∨
      (Path.Step.ofPart? part = some .up ∧ next = place.dropLast) ∨
      (Path.Step.ofPart? part = some (.into part) ∧ next = place ++ [part]) := by
  unfold step at h
  split at h
  · cases h
  · cases h
  · split at h
    · rename_i hnone
      exact .inl ⟨hnone, (Except.ok.inj h).symm⟩
    · rename_i hup
      exact .inr (.inl ⟨hup, (Except.ok.inj h).symm⟩)
    · rename_i name hinto
      obtain rfl : name = part := Path.Step.text_of_ofPart? hinto
      split at h
      · cases h
      · split at h
        · exact .inr (.inr ⟨hinto, (Except.ok.inj h).symm⟩)
        · cases h

/-- A walk that succeeds takes its first step and walks on from there. -/
theorem walk_cons_eq_ok {part : String} {parts : List String}
    (h : t.walk place (part :: parts) = .ok next) :
    ∃ middle, t.step place part = .ok middle ∧ t.walk middle parts = .ok next := by
  unfold walk at h
  rw [List.foldlM_cons] at h
  cases hstep : t.step place part with
  | error e =>
    rw [hstep] at h
    cases h
  | ok middle =>
    rw [hstep] at h
    exact ⟨middle, rfl, h⟩

/-- A look-up goes up from where it starts as far as its steps climb and ends at the names that they
keep. -/
theorem eq_of_walk {parts : List String} (h : t.walk place parts = .ok next) :
    next = place.take (place.length - Path.climb (parts.filterMap Path.Step.ofPart?)) ++
      Path.kept (parts.filterMap Path.Step.ofPart?) := by
  induction parts generalizing place with
  | nil =>
    obtain rfl : place = next := Except.ok.inj h
    simp [Path.climb, Path.kept]
  | cons part parts ih =>
    obtain ⟨middle, hstep, hrest⟩ := walk_cons_eq_ok h
    rw [ih hrest]
    rcases step_eq_ok hstep with ⟨hpart, rfl⟩ | ⟨hpart, rfl⟩ | ⟨hpart, rfl⟩
    · rw [List.filterMap_cons_none hpart]
    · rw [List.filterMap_cons_some hpart, Path.climb, Path.kept, List.length_dropLast,
        List.dropLast_eq_take, List.take_take]
      congr 2
      omega
    · rw [List.filterMap_cons_some hpart, Path.climb, Path.kept, List.length_append]
      cases Path.climb (parts.filterMap Path.Step.ofPart?) with
      | zero =>
        rw [if_pos rfl, Nat.sub_zero, List.take_of_length_le (by simp)]
        simp
      | succ n =>
        rw [if_neg (Nat.succ_ne_zero n), Nat.add_sub_cancel]
        congr 1
        rw [List.length_singleton, Nat.add_sub_add_right]
        exact List.take_append_of_le_length (Nat.sub_le _ _)

/-- A place to which its own names lead from the root. -/
structure IsReached (t : FileTree) (place : List String) : Prop where
  names : ∀ name ∈ place, Path.Step.ofPart? name = some (.into name)
  walk : t.walk [] place = .ok place

/-- The root is reached without a step. -/
theorem isReached_root (t : FileTree) : t.IsReached [] :=
  ⟨fun _ h => absurd h List.not_mem_nil, rfl⟩

/-- On the way to a place its parent was reached. -/
theorem IsReached.dropLast (h : t.IsReached place) : t.IsReached place.dropLast := by
  rcases List.eq_nil_or_concat place with rfl | ⟨above, name, rfl⟩
  · exact h
  · rw [List.concat_eq_append] at h ⊢
    rw [List.dropLast_concat]
    refine ⟨fun other hother => h.names other (List.mem_append_left _ hother), ?_⟩
    have hwalk := h.walk
    rw [walk_append] at hwalk
    cases habove : t.walk [] above with
    | error e =>
      rw [habove] at hwalk
      cases hwalk
    | ok middle =>
      rw [habove] at hwalk
      have hname := h.names name (by simp)
      have hstep : t.step middle name = .ok (above ++ [name]) := by
        rw [← walk_singleton]
        exact hwalk
      rcases step_eq_ok hstep with ⟨hpart, -⟩ | ⟨hpart, -⟩ | ⟨-, heq⟩
      · rw [hname] at hpart
        cases hpart
      · rw [hname] at hpart
        cases hpart
      · rw [(List.append_inj_left' heq rfl).symm]

/-- A step from a reached place leads to one. -/
theorem IsReached.step {part : String} (h : t.IsReached place) (hstep : t.step place part = .ok next) :
    t.IsReached next := by
  rcases step_eq_ok hstep with ⟨-, rfl⟩ | ⟨-, rfl⟩ | ⟨hpart, rfl⟩
  · exact h
  · exact h.dropLast
  · refine ⟨?_, ?_⟩
    · intro name hname
      rcases List.mem_append.1 hname with hname | hname
      · exact h.names name hname
      · rw [List.mem_singleton.1 hname]
        exact hpart
    · rw [walk_append, h.walk]
      exact (walk_singleton t place part).trans hstep

/-- A walk from a reached place leads to one. -/
theorem isReached_of_walk {parts : List String} (hplace : t.IsReached place)
    (h : t.walk place parts = .ok next) : t.IsReached next := by
  induction parts generalizing place with
  | nil =>
    obtain rfl : place = next := Except.ok.inj h
    exact hplace
  | cons part parts ih =>
    obtain ⟨middle, hstep, hrest⟩ := walk_cons_eq_ok h
    exact ih (hplace.step hstep) hrest

/-! ### Cleaned paths -/

/-- A look-up that starts at the root ends at the names that its path keeps. -/
theorem kept_eq_of_walk (h : t.walk [] p.parts = .ok place) : Path.kept p.steps = place := by
  have hplace := eq_of_walk h
  rw [List.take_nil, List.nil_append] at hplace
  exact hplace.symm

/-- An empty part leads nowhere from the root. -/
theorem step_root_empty (t : FileTree) : t.step [] "" = .ok [] :=
  step_empty (show t.node? [] = some (.directory t.entries) from rfl)

/-- Nothing is above the root. -/
theorem step_root_up (t : FileTree) : t.step [] ".." = .ok [] := rfl

/-- Any number of steps up from the root stays there. -/
theorem walk_root_ups (t : FileTree) (n : Nat) : t.walk [] (List.replicate n "..") = .ok [] := by
  induction n with
  | zero => rfl
  | succ n ih =>
    rw [List.replicate_succ, ← List.singleton_append, walk_append, walk_singleton, step_root_up]
    exact ih

/-- A walk along an absolute path that succeeds leads to the same place along the cleaned path. -/
theorem walk_clean (habsolute : p.isAbsolute = true) (h : t.walk [] p.parts = .ok place) :
    t.walk [] p.clean.parts = .ok place := by
  have hreached := isReached_of_walk (isReached_root t) h
  have htexts : (Path.foldSteps p.steps).map Path.Step.text =
      List.replicate (Path.climb p.steps % 2) ".." ++ place := by
    rw [Path.foldSteps_eq, kept_eq_of_walk h, List.map_append, List.map_replicate, List.map_map]
    exact congrArg _ (List.map_id place)
  have hwalk : t.walk [] ((Path.foldSteps p.steps).map Path.Step.text) = .ok place := by
    rw [htexts, walk_append, walk_root_ups]
    exact hreached.walk
  have hparts : p.clean.parts =
      "" :: (Path.mk ("/".intercalate ((Path.foldSteps p.steps).map Path.Step.text))).parts := by
    rw [← Path.parts_separator_append]
    simp [Path.clean, Path.ofSteps, habsolute]
  rw [hparts, ← List.singleton_append, walk_append, walk_singleton, step_root_empty]
  by_cases hne : Path.foldSteps p.steps = []
  · rw [hne] at hwalk ⊢
    exact (walk_singleton t [] "").trans ((step_root_empty t).trans hwalk)
  · rw [Path.parts_intercalate hne fun _ hs => Path.isProper_of_mem_foldSteps hs]
    exact hwalk

/-- A path that leads to a place still does once it is cleaned. -/
theorem locate_clean (h : t.locate p = .ok place) : t.locate p.clean = .ok place := by
  obtain ⟨hzero, hshort, habsolute, hwalk⟩ := (t.locate_eq_ok_iff p place).1 h
  rw [locate_eq_ok_iff]
  exact ⟨fun hmem => hzero (p.text_clean_sublist.subset hmem),
    Nat.le_trans p.utf8ByteSize_clean_le hshort, Path.isAbsolute_clean habsolute,
    walk_clean habsolute hwalk⟩

/-- **Cleaned paths lead where the paths lead.** Where an absolute path leads part by part, the
cleaned path leads too. So whatever is found under a path is found under the cleaned path. -/
theorem leads_clean (habsolute : p.isAbsolute = true) :
    (∀ place, t.walk [] p.parts = .ok place → t.walk [] p.clean.parts = .ok place) ∧
    (∀ place, t.locate p = .ok place → t.locate p.clean = .ok place) ∧
    ∀ node, t.find? p = some node → t.find? p.clean = some node := by
  refine ⟨fun place => walk_clean habsolute, fun place => locate_clean, ?_⟩
  intro node hnode
  unfold find? at hnode ⊢
  cases hlocate : t.locate p with
  | error e =>
    rw [hlocate] at hnode
    cases hnode
  | ok place =>
    rw [hlocate] at hnode
    rw [locate_clean hlocate]
    exact hnode

/-- A step up that is left at the root leads nowhere else. -/
theorem leads_clean_of_detours :
    let t : FileTree := empty.put ["a", "b.md"] (.file (some "text")) |>.put ["a", "c"] (.directory [])
    let p : Path := ⟨"/..//.././../a/c/../b.md"⟩
    p.isAbsolute = true ∧ t.locate p = .ok ["a", "b.md"] ∧ p.clean = ⟨"/../a/b.md"⟩ ∧
      t.locate p.clean = .ok ["a", "b.md"] := by
  intro t p
  have habsolute : p.isAbsolute = true := by decide
  have hlocate : t.locate p = .ok ["a", "b.md"] := by decide +kernel
  exact ⟨habsolute, hlocate, by decide +kernel, (leads_clean habsolute).2.1 _ hlocate⟩

end FileTree

end Preflight
