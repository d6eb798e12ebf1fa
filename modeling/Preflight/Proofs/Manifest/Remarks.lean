import Preflight.Manifest.CrossCheck
import Preflight.Proofs.Diagnostic.Errors
import Preflight.Proofs.Diagnostic.Places

/-!
# What a comparison says

A comparison of a manifest with an inventory says something about single entries,
about entries that repeat an earlier one, about the number of entries, and about files
without an entry. Where each of the four parts points, and whether it says errors or
warnings, is stated here once for all that is to be known about a comparison.
-/

set_option autoImplicit false

namespace Preflight.Manifest

open Preflight.Json (Value)

variable {t : FileTree} {m : Manifest} {inventory : Inventory} {root : Path} {suffix : String}
  {d : Diagnostic}

/-! ### Single entries -/

/-- All that is said about an entry on its own are errors at this entry. -/
theorem isError_of_mem_checkEntry {index : Nat} {value : Value}
    (hd : d ∈ (checkEntry t m root suffix index value).diagnostics) :
    d.isError = true ∧ d.location.IsAt (m.locationOf index) := by
  cases value with
  | string entry =>
    simp only [checkEntry, List.mem_append, Option.mem_toList] at hd
    rcases hd with (h | h) | h
    · simp only [directoryIssue?, Option.ite_none_right_eq_some] at h
      rw [← Option.some.inj h.2]
      exact ⟨rfl, rfl⟩
    · simp only [suffixIssue?, Option.ite_none_left_eq_some] at h
      rw [← Option.some.inj h.2]
      exact ⟨rfl, rfl⟩
    · simp only [existenceIssue?, Option.ite_none_left_eq_some] at h
      rw [← Option.some.inj h.2]
      exact ⟨rfl, rfl⟩
  | _ =>
    rw [List.mem_singleton.1 hd]
    exact ⟨rfl, rfl⟩

/-- What is said about the entries is said about one of them. -/
theorem exists_entry_of_mem_checkEntries (hd : d ∈ (checkEntries t m root suffix).diagnostics) :
    ∃ index value, m.entries[index]? = some value ∧
      d ∈ (checkEntry t m root suffix index value).diagnostics :=
  Outcome.exists_of_mem_concat_zipIdx (fun value index => checkEntry t m root suffix index value) hd

/-- What is said about one entry is said about the entries. -/
theorem mem_checkEntries {index : Nat} {value : Value} (hvalue : m.entries[index]? = some value)
    (hd : d ∈ (checkEntry t m root suffix index value).diagnostics) :
    d ∈ (checkEntries t m root suffix).diagnostics :=
  Outcome.mem_concat_zipIdx (fun value index => checkEntry t m root suffix index value) hvalue hd

/-! ### Repeated entries -/

/-- The warning about an entry that repeats an earlier one. -/
def repetition (m : Manifest) (index : Nat) (entry : String) : Diagnostic :=
  .warning .referential s!"'{entry}' is listed more than once" (m.locationOf index)

/-- A key is among the keys before a position exactly if an earlier text has it. -/
theorem mem_take_keys_iff (m : Manifest) (index : Nat) (key : String) :
    some key ∈ (m.entries.map fun value => value.string?.map entryKey).take index ↔
      ∃ earlier, Value.string earlier ∈ m.entries.take index ∧ entryKey earlier = key := by
  rw [← List.map_take, List.mem_map]
  constructor
  · rintro ⟨value, hvalue, hkey⟩
    obtain ⟨earlier, htext, rfl⟩ := Option.map_eq_some_iff.1 hkey
    cases value with
    | string text =>
      cases htext
      exact ⟨earlier, hvalue, rfl⟩
    | _ => cases htext
  · rintro ⟨earlier, hvalue, rfl⟩
    exact ⟨.string earlier, hvalue, rfl⟩

/-- An entry is said to repeat an earlier one exactly if an earlier one has the same key. -/
theorem mem_checkRepetitions_iff :
    d ∈ m.checkRepetitions.diagnostics ↔
      ∃ index entry, m.entries[index]? = some (.string entry) ∧
        (∃ earlier, Value.string earlier ∈ m.entries.take index ∧
          entryKey earlier = entryKey entry) ∧
        d = m.repetition index entry := by
  have hissue : ∀ index entry, m.repetition?
      (m.entries.map fun value => value.string?.map entryKey) index entry = some d ↔
        (∃ earlier, Value.string earlier ∈ m.entries.take index ∧
          entryKey earlier = entryKey entry) ∧ d = m.repetition index entry := by
    intro index entry
    rw [repetition?, Option.ite_none_right_eq_some, List.contains_iff_mem, mem_take_keys_iff,
      Option.some.injEq, eq_comm (b := d)]
    rfl
  simp only [checkRepetitions, List.mem_filterMap]
  constructor
  · rintro ⟨⟨value, index⟩, hmem, hsome⟩
    obtain ⟨entry, htext, hrepetition⟩ := Option.bind_eq_some_iff.1 hsome
    cases value with
    | string text =>
      cases htext
      exact ⟨index, entry, List.mk_mem_zipIdx_iff_getElem?.1 hmem, (hissue index entry).1 hrepetition⟩
    | _ => cases htext
  · rintro ⟨index, entry, hvalue, hrepetition⟩
    exact ⟨(.string entry, index), List.mk_mem_zipIdx_iff_getElem?.2 hvalue,
      (hissue index entry).2 hrepetition⟩

/-! ### All entries together -/

/-- A complaint about the count is an error, and about the manifest as a whole. -/
theorem isError_of_mem_checkCount (hd : d ∈ (m.checkCount inventory).diagnostics) :
    d.isError = true ∧ d.location = m.location := by
  unfold checkCount at hd
  split at hd
  · cases hd
  · rw [List.mem_singleton.1 hd]
    exact ⟨rfl, rfl⟩

/-- A complaint about an undeclared descriptor is no error, and at its name. -/
theorem isError_of_mem_checkUndeclared (hd : d ∈ (m.checkUndeclared inventory root).diagnostics) :
    d.isError = false ∧ ∃ name ∈ inventory.names, d.location = m.location.atField name := by
  obtain ⟨name, hname, rfl⟩ := List.mem_map.1 hd
  exact ⟨rfl, name, List.mem_of_mem_filter hname, rfl⟩

/-! ### Comparisons -/

/-- Whatever a comparison says comes from one of its four parts. -/
theorem mem_crossCheck_iff :
    d ∈ (crossCheck t m inventory root suffix).diagnostics ↔
      d ∈ (checkEntries t m root suffix).diagnostics ∨ d ∈ m.checkRepetitions.diagnostics ∨
        d ∈ (m.checkCount inventory).diagnostics ∨
        d ∈ (m.checkUndeclared inventory root).diagnostics := by
  simp only [crossCheck, Outcome.diagnostics_append, List.mem_append, or_assoc]

/-- All that a comparison says is about the manifest. -/
theorem scope_of_mem_crossCheck (hd : d ∈ (crossCheck t m inventory root suffix).diagnostics) :
    d.location.scope = some m.path.text := by
  rcases mem_crossCheck_iff.1 hd with h | h | h | h
  · obtain ⟨index, value, -, hentry⟩ := exists_entry_of_mem_checkEntries h
    exact (isError_of_mem_checkEntry hentry).2.scope_eq
  · obtain ⟨index, entry, -, -, rfl⟩ := mem_checkRepetitions_iff.1 h
    rfl
  · rw [(isError_of_mem_checkCount h).2]
    rfl
  · obtain ⟨-, name, -, hname⟩ := isError_of_mem_checkUndeclared h
    rw [hname]
    rfl

/-- What a comparison says at an entry are errors about this entry on its own, or that it repeats an
earlier one. -/
theorem mem_crossCheck_at {index : Nat} (hindex : d.location.entry = some index)
    (hd : d ∈ (crossCheck t m inventory root suffix).diagnostics) :
    (∃ value, m.entries[index]? = some value ∧
      d ∈ (checkEntry t m root suffix index value).diagnostics ∧ d.isError = true) ∨
    (∃ entry, m.entries[index]? = some (.string entry) ∧
      (∃ earlier, Value.string earlier ∈ m.entries.take index ∧
        entryKey earlier = entryKey entry) ∧ d = m.repetition index entry) := by
  rcases mem_crossCheck_iff.1 hd with h | h | h | h
  · obtain ⟨index', value, hvalue, hentry⟩ := exists_entry_of_mem_checkEntries h
    obtain ⟨herror, hplace⟩ := isError_of_mem_checkEntry hentry
    obtain rfl : index' = index := Option.some.inj (hplace.entry_eq.symm.trans hindex)
    exact .inl ⟨value, hvalue, hentry, herror⟩
  · obtain ⟨index', entry, hvalue, hearlier, rfl⟩ := mem_checkRepetitions_iff.1 h
    obtain rfl : index' = index := Option.some.inj hindex
    exact .inr ⟨entry, hvalue, hearlier, rfl⟩
  · rw [(isError_of_mem_checkCount h).2] at hindex
    cases hindex
  · obtain ⟨-, name, -, hname⟩ := isError_of_mem_checkUndeclared h
    rw [hname] at hindex
    cases hindex

end Preflight.Manifest
