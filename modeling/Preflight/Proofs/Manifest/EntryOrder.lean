import Mathlib.Data.Finset.Card
import Mathlib.Data.List.Induction
import Preflight.Proofs.Manifest.Remarks

/-!
# The order of entries

The entries of a manifest may stand in any order. Which of two entries for one file is
said to repeat the other depends on the order, but how many repetitions there are does
not: as many as there are texts, less the number of different keys among them
(`length_checkRepetitions_add_card`). The errors of an entry on its own depend on nothing
but the entry, and the rest of a comparison looks at the set of entries and their number,
so the totals and all that is said about the manifest as a whole stay the same
(`crossCheck_perm`).
-/

set_option autoImplicit false

namespace Preflight.Manifest

open Preflight.Json (Value)

variable {t : FileTree} {m : Manifest} {inventory : Inventory} {root : Path} {suffix : String}

/-! ### Errors of single entries -/

/-- The number of rules that an entry breaks on its own. -/
def faultCount (t : FileTree) (root : Path) (suffix : String) : Value → Nat
  | .string entry =>
    (isDirectoryName entry).toNat + (!Inventory.hasSuffix suffix entry).toNat +
      (!t.contains (resolveEntry root entry)).toNat
  | _ => 1

/-- What is said about an entry on its own does not depend on its place or on other entries. -/
theorem length_checkEntry (index : Nat) (value : Value) :
    (checkEntry t m root suffix index value).diagnostics.length = faultCount t root suffix value := by
  cases value with
  | string entry =>
    simp only [checkEntry, List.length_append, faultCount, directoryIssue?, suffixIssue?,
      existenceIssue?]
    cases isDirectoryName entry <;> cases Inventory.hasSuffix suffix entry <;>
      cases t.contains (resolveEntry root entry) <;> rfl
  | _ => rfl

/-- The diagnostics of entries are counted entry by entry. -/
theorem length_checkEntries :
    (checkEntries t m root suffix).diagnostics.length =
      (m.entries.map (faultCount t root suffix)).sum :=
  Outcome.length_concat_zipIdx (fun value index => checkEntry t m root suffix index value)
    m.entries fun value index => length_checkEntry index value

/-! ### The number of repetitions -/

/-- The keys of the entries that are texts, in their order. -/
def textKeys (m : Manifest) : List String :=
  m.entries.filterMap fun value => value.string?.map entryKey

/-- The keys of texts are the keys of the entries that are texts. -/
theorem mem_textKeys_iff (m : Manifest) (key : String) :
    key ∈ m.textKeys ↔ some key ∈ m.entries.map fun value => value.string?.map entryKey := by
  rw [textKeys, List.mem_filterMap, List.mem_map]

/-- One more entry is a repetition or not; what is said about the entries before it stays. -/
theorem checkRepetitions_concat (m : Manifest) (value : Value) :
    ({ m with entries := m.entries ++ [value] } : Manifest).checkRepetitions.diagnostics =
      m.checkRepetitions.diagnostics ++
        (value.string?.bind fun entry =>
          if entryKey entry ∈ m.textKeys then some (m.repetition m.entries.length entry)
          else none).toList := by
  have hearlier : ∀ index ≤ m.entries.length, ∀ entry,
      ({ m with entries := m.entries ++ [value] } : Manifest).repetition?
        ((m.entries ++ [value]).map fun value => value.string?.map entryKey) index entry =
          m.repetition? (m.entries.map fun value => value.string?.map entryKey) index entry := by
    intro index hindex entry
    rw [repetition?, repetition?, List.map_append, List.take_append_of_le_length (by simpa)]
    rfl
  have hlast : ∀ entry,
      m.repetition? (m.entries.map fun value => value.string?.map entryKey) m.entries.length entry =
        if entryKey entry ∈ m.textKeys then some (m.repetition m.entries.length entry)
        else none := by
    intro entry
    rw [repetition?, List.take_of_length_le (by simp)]
    simp only [List.contains_iff_mem, mem_textKeys_iff]
    rfl
  simp only [checkRepetitions, List.zipIdx_append, List.filterMap_append]
  congr 1
  · apply List.filterMap_congr
    rintro ⟨earlier, index⟩ hmem
    have hindex := List.snd_lt_of_mem_zipIdx hmem
    exact Option.bind_congr fun entry _ => hearlier index (by omega) entry
  · simp only [List.zipIdx_singleton, List.filterMap_cons, List.filterMap_nil, Nat.zero_add,
      hearlier _ (Nat.le_refl _), hlast]
    cases value.string?.bind _ <;> rfl

/-- There are as many repetitions as there are texts beyond the first for each key. -/
theorem length_checkRepetitions_add_card (m : Manifest) :
    m.checkRepetitions.diagnostics.length + m.textKeys.toFinset.card = m.textKeys.length := by
  obtain ⟨path, key, entries⟩ := m
  induction entries using List.reverseRecOn with
  | nil => rfl
  | append_singleton entries value ih =>
    rw [checkRepetitions_concat ⟨path, key, entries⟩ value, List.length_append]
    have hkeys : textKeys ⟨path, key, entries ++ [value]⟩ =
        textKeys ⟨path, key, entries⟩ ++ (value.string?.map entryKey).toList := by
      rw [textKeys, List.filterMap_append]
      cases value <;> rfl
    rw [hkeys, List.toFinset_append, List.length_append]
    cases value.string? with
    | none => simpa using ih
    | some entry =>
      have hunion : (textKeys ⟨path, key, entries⟩).toFinset ∪
          (Option.map entryKey (some entry)).toList.toFinset =
            insert (entryKey entry) (textKeys ⟨path, key, entries⟩).toFinset := by
        rw [Finset.union_comm]
        rfl
      rw [hunion, Option.bind_some]
      by_cases hmem : entryKey entry ∈ textKeys ⟨path, key, entries⟩
      · rw [if_pos hmem, Finset.insert_eq_self.2 (List.mem_toFinset.2 hmem)]
        simp only [Option.toList_some, Option.map_some, List.length_singleton]
        omega
      · rw [if_neg hmem, Finset.card_insert_of_notMem (mt List.mem_toFinset.1 hmem)]
        simp only [Option.toList_some, Option.toList_none, Option.map_some, List.length_singleton,
          List.length_nil]
        omega

/-! ### Comparisons in another order -/

/-- What a comparison says about the manifest as a whole: that the number of entries is wrong, and
which files have no entry. -/
theorem filter_entry_isNone_crossCheck :
    (crossCheck t m inventory root suffix).diagnostics.filter (·.location.entry.isNone) =
      (m.checkCount inventory).diagnostics ++ (m.checkUndeclared inventory root).diagnostics := by
  have hentries : (checkEntries t m root suffix).diagnostics.filter (·.location.entry.isNone) =
      [] := by
    rw [List.filter_eq_nil_iff]
    intro d hd
    obtain ⟨index, value, -, hentry⟩ := exists_entry_of_mem_checkEntries hd
    rw [(isError_of_mem_checkEntry hentry).2.entry_eq]
    exact Bool.false_ne_true
  have hrepetitions : m.checkRepetitions.diagnostics.filter (·.location.entry.isNone) = [] := by
    rw [List.filter_eq_nil_iff]
    intro d hd
    obtain ⟨index, entry, -, -, rfl⟩ := mem_checkRepetitions_iff.1 hd
    exact Bool.false_ne_true
  have hcount : (m.checkCount inventory).diagnostics.filter (·.location.entry.isNone) =
      (m.checkCount inventory).diagnostics := by
    rw [List.filter_eq_self]
    intro d hd
    rw [(isError_of_mem_checkCount hd).2]
    rfl
  have hundeclared : (m.checkUndeclared inventory root).diagnostics.filter
      (·.location.entry.isNone) = (m.checkUndeclared inventory root).diagnostics := by
    rw [List.filter_eq_self]
    intro d hd
    obtain ⟨-, name, -, hname⟩ := isError_of_mem_checkUndeclared hd
    rw [hname]
    rfl
  simp only [crossCheck, Outcome.diagnostics_append, List.filter_append, hentries, hrepetitions,
    hcount, hundeclared, List.nil_append]

/-- Single entries and their number make errors; repetitions and files without an entry make
warnings. -/
theorem counts_crossCheck :
    (crossCheck t m inventory root suffix).errorCount =
      (checkEntries t m root suffix).diagnostics.length +
        (m.checkCount inventory).diagnostics.length ∧
    (crossCheck t m inventory root suffix).warningCount =
      m.checkRepetitions.diagnostics.length +
        (m.checkUndeclared inventory root).diagnostics.length := by
  have hentries : ∀ d ∈ (checkEntries t m root suffix).diagnostics, d.isError = true := by
    intro d hd
    obtain ⟨index, value, -, hentry⟩ := exists_entry_of_mem_checkEntries hd
    exact (isError_of_mem_checkEntry hentry).1
  have hrepetitions : ∀ d ∈ m.checkRepetitions.diagnostics, d.isWarning = true := by
    intro d hd
    obtain ⟨index, entry, -, -, rfl⟩ := mem_checkRepetitions_iff.1 hd
    rfl
  have hcount : ∀ d ∈ (m.checkCount inventory).diagnostics, d.isError = true :=
    fun d hd => (isError_of_mem_checkCount hd).1
  have hundeclared : ∀ d ∈ (m.checkUndeclared inventory root).diagnostics, d.isWarning = true :=
    List.forall_mem_map.2 fun _ _ => rfl
  simp only [crossCheck, Outcome.errorCount_append, Outcome.warningCount_append,
    Outcome.counts_of_forall_isError hentries, Outcome.counts_of_forall_isWarning hrepetitions,
    Outcome.counts_of_forall_isError hcount, Outcome.counts_of_forall_isWarning hundeclared,
    Nat.add_zero, Nat.zero_add, and_self]

/-- **The order of entries.** With the same entries in another order a comparison has as many errors
and as many warnings, and it says the same, in the same order, about the number of entries, about the
files without an entry, and so about the manifest as a whole. -/
theorem crossCheck_perm (t : FileTree) (m : Manifest) (inventory : Inventory) (root : Path)
    (suffix : String) {entries : List Value} (h : entries.Perm m.entries) :
    (crossCheck t { m with entries := entries } inventory root suffix).errorCount =
      (crossCheck t m inventory root suffix).errorCount ∧
    (crossCheck t { m with entries := entries } inventory root suffix).warningCount =
      (crossCheck t m inventory root suffix).warningCount ∧
    checkCount { m with entries := entries } inventory = m.checkCount inventory ∧
    checkUndeclared { m with entries := entries } inventory root =
      m.checkUndeclared inventory root ∧
    (crossCheck t { m with entries := entries } inventory root suffix).diagnostics.filter
        (·.location.entry.isNone) =
      (crossCheck t m inventory root suffix).diagnostics.filter (·.location.entry.isNone) := by
  have hentries : (checkEntries t { m with entries := entries } root suffix).diagnostics.length =
      (checkEntries t m root suffix).diagnostics.length := by
    rw [length_checkEntries, length_checkEntries]
    exact (h.map _).sum_nat
  have hrepetitions : (checkRepetitions { m with entries := entries }).diagnostics.length =
      m.checkRepetitions.diagnostics.length := by
    have hkeys : (textKeys { m with entries := entries }).Perm m.textKeys := h.filterMap _
    have hsame := length_checkRepetitions_add_card { m with entries := entries }
    rw [hkeys.length_eq, List.toFinset_eq_of_perm _ _ hkeys,
      ← length_checkRepetitions_add_card m] at hsame
    exact Nat.add_right_cancel hsame
  have hcount : checkCount { m with entries := entries } inventory = m.checkCount inventory := by
    simp only [checkCount, h.length_eq]
    rfl
  have hundeclared : checkUndeclared { m with entries := entries } inventory root =
      m.checkUndeclared inventory root := by
    have hdeclared : (declared { m with entries := entries } root).Perm (m.declared root) :=
      (h.filterMap _).map _
    simp only [checkUndeclared, List.contains_eq_mem, hdeclared.mem_iff]
    rfl
  refine ⟨?_, ?_, hcount, hundeclared, ?_⟩
  · rw [counts_crossCheck.1, counts_crossCheck.1, hentries, hcount]
  · rw [counts_crossCheck.2, counts_crossCheck.2, hrepetitions, hundeclared]
  · rw [filter_entry_isNone_crossCheck, filter_entry_isNone_crossCheck, hcount, hundeclared]

/-- Two spellings of one file around a number. -/
def spelledTwice : Manifest :=
  ⟨⟨"/w/plugin.json"⟩, "agents",
    [.string "agents/a.md", .number (.integer 1), .string "./agents\\a.md"]⟩

/-- The other way round the other spelling is the one that is listed again. -/
theorem crossCheck_perm_of_spelledTwice :
    let reversed : Manifest := { spelledTwice with entries := spelledTwice.entries.reverse }
    let inventory := Inventory.ofNames ⟨"/w/agents"⟩ ["b.md", "c.md"]
    reversed.entries.Perm spelledTwice.entries ∧
      reversed.checkRepetitions ≠ spelledTwice.checkRepetitions ∧
      (crossCheck .empty reversed inventory ⟨"/w"⟩ ".md").errorCount = 4 ∧
      (crossCheck .empty reversed inventory ⟨"/w"⟩ ".md").warningCount = 3 ∧
      reversed.checkUndeclared inventory ⟨"/w"⟩ = spelledTwice.checkUndeclared inventory ⟨"/w"⟩ := by
  intro reversed inventory
  have hperm : reversed.entries.Perm spelledTwice.entries := List.reverse_perm _
  obtain ⟨herrors, hwarnings, -, hundeclared, -⟩ :=
    crossCheck_perm .empty spelledTwice inventory ⟨"/w"⟩ ".md" hperm
  refine ⟨hperm, by decide +kernel, ?_, ?_, hundeclared⟩
  · rw [herrors]
    decide +kernel
  · rw [hwarnings]
    decide +kernel

end Preflight.Manifest
