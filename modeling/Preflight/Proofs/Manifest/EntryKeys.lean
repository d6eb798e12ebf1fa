import Preflight.Manifest.CrossCheck
import Preflight.Proofs.Path.Steps

/-!
# Keys of entries

Repeated entries are found by their keys, while everything else about entries goes by
the paths that they resolve to. A key has the steps of the path that it was taken from
(`steps_entryKey`), so of entries that all start at the root of all files, or all do
not, those with the same key resolve to the same path (`resolveEntry_eq_of_entryKey_eq`).
The converse holds of entries without detours (`entryKey_eq_of_resolveEntry_eq`).

Where one of two entries starts at the root they may have the same key and resolve to
different paths, such as `/x.md` and `.//x.md`. But if both resolve to something with a
name, then to the same name (`name_eq_of_entryKey_eq`).
-/

set_option autoImplicit false

namespace Preflight.Manifest

/-- Whether an entry starts at the root of all files. -/
def startsAtRoot (entry : String) : Bool :=
  (Path.mk (normalizeSeparators entry)).isAbsolute

/-! ### Steps of entries -/

/-- Single dots and separators at the start of a text are no steps. -/
theorem steps_dropDots (entry : List Char) :
    (Path.mk (normalizeSeparators (String.ofList (dropDots entry)))).steps =
      (Path.mk (normalizeSeparators (String.ofList entry))).steps := by
  fun_induction dropDots entry with
  | case1 rest ih =>
    have hnormal : normalizeSeparators (String.ofList ('.' :: '/' :: rest)) =
        String.ofList (['.'] ++ '/' :: (normalizeSeparators (String.ofList rest)).toList) := by
      simp [normalizeSeparators]
    rw [ih, hnormal, Path.steps_append_separator, Path.steps_dot, String.ofList_toList,
      List.nil_append]
  | case2 entry h => rfl

/-- The key of an entry takes the same steps as the entry, with its backslashes turned. -/
theorem steps_entryKey (entry : String) :
    (Path.mk (entryKey entry)).steps = (Path.mk (normalizeSeparators entry)).steps := by
  have hsteps := steps_dropDots entry.toList
  rwa [String.ofList_toList] at hsteps

/-- An entry resolves to the steps of its key, after those of the root unless the entry starts at
the root of all files. -/
theorem steps_resolveEntry (root : Path) (entry : String) :
    (resolveEntry root entry).steps =
      Path.foldSteps ((if startsAtRoot entry then [] else root.steps) ++
        (Path.mk (entryKey entry)).steps) := by
  unfold resolveEntry
  rw [Path.steps_clean, steps_entryKey]
  cases hstart : startsAtRoot entry with
  | true => rw [Path.join_of_isAbsolute root hstart, if_pos rfl, List.nil_append]
  | false => rw [Path.steps_join root hstart, if_neg Bool.false_ne_true]

/-! ### Entries with the same key -/

/-- Entries with one key that both start at the root, or both do not, resolve to one path. -/
theorem resolveEntry_eq_of_entryKey_eq (root : Path) {entry entry' : String}
    (hstart : startsAtRoot entry = startsAtRoot entry') (hkey : entryKey entry = entryKey entry') :
    resolveEntry root entry = resolveEntry root entry' := by
  unfold resolveEntry
  apply Path.clean_join_congr root hstart
  rw [← steps_entryKey, ← steps_entryKey, hkey]

/-- Entries with the same key that resolve to something with a name resolve to the same name. -/
theorem name_eq_of_entryKey_eq {root : Path} {entry entry' name name' : String}
    (hkey : entryKey entry = entryKey entry')
    (h : (resolveEntry root entry).steps.getLast? = some (.into name))
    (h' : (resolveEntry root entry').steps.getLast? = some (.into name')) : name = name' := by
  by_cases hstart : startsAtRoot entry = startsAtRoot entry'
  · rw [resolveEntry_eq_of_entryKey_eq root hstart hkey, h'] at h
    exact (Path.Step.into.inj (Option.some.inj h)).symm
  · rw [steps_resolveEntry] at h h'
    rw [← hkey] at h'
    cases hentry : startsAtRoot entry with
    | true =>
      rw [hentry, if_pos rfl, List.nil_append] at h
      exact Path.getLast?_foldSteps_append h h'
    | false =>
      have hentry' : startsAtRoot entry' = true := by simpa [hentry] using hstart
      rw [hentry', if_pos rfl, List.nil_append] at h'
      exact (Path.getLast?_foldSteps_append h' h).symm

/-! ### Entries without detours -/

/-- An entry that starts at the root or not and goes from name to name without detours; only at its
start it may have single dots. -/
def IsDirect (absolute : Bool) (entry : String) : Prop :=
  startsAtRoot entry = absolute ∧ ∃ names : List String, (∀ name ∈ names, Path.IsName name) ∧
    entryKey entry = (Path.ofSteps absolute (names.map .into)).text

/-- A direct entry is its steps, and resolves to them after those of the root. -/
theorem IsDirect.exists_steps {absolute : Bool} {entry : String} (h : IsDirect absolute entry)
    (root : Path) :
    ∃ steps, entryKey entry = (Path.ofSteps absolute steps).text ∧
      (resolveEntry root entry).steps =
        Path.foldSteps (if absolute then [] else root.steps) ++ steps := by
  obtain ⟨rfl, names, hnames, hkey⟩ := h
  have hproper : ∀ s ∈ names.map Path.Step.into, s.IsProper := by
    intro s hs
    obtain ⟨name, hname, rfl⟩ := List.mem_map.1 hs
    exact hnames name hname
  refine ⟨names.map .into, hkey, ?_⟩
  rw [steps_resolveEntry, hkey, Path.steps_ofSteps _ hproper, Path.foldSteps_append_into]

/-- Entries without detours that resolve to the same path have the same key. -/
theorem entryKey_eq_of_resolveEntry_eq {root : Path} {absolute : Bool} {entry entry' : String}
    (h : IsDirect absolute entry) (h' : IsDirect absolute entry')
    (heq : resolveEntry root entry = resolveEntry root entry') : entryKey entry = entryKey entry' := by
  obtain ⟨steps, hkey, hsteps⟩ := h.exists_steps root
  obtain ⟨steps', hkey', hsteps'⟩ := h'.exists_steps root
  rw [heq, hsteps'] at hsteps
  rw [hkey, hkey', List.append_cancel_left hsteps]

end Preflight.Manifest
