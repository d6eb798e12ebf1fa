import Preflight.Proofs.Manifest.PerfectManifest

/-!
# Entries without errors

An entry of a manifest is accepted if a comparison says no error at it. Then it is a text
with the suffix of descriptors and without a separator at its end, and what it resolves to
exists. That need not be a file: a directory is told from its spelling only. But a
directory is accepted only if its own name has the suffix (`isAccepted_iff`).
-/

set_option autoImplicit false

namespace Preflight.Manifest

open Preflight.Json (Value)

variable {t : FileTree} {m : Manifest} {inventory : Inventory} {root : Path} {suffix : String}

/-- An entry with the suffix resolves to a path whose last step goes into a name with the suffix. -/
theorem exists_name_resolveEntry (root : Path) (hname : Path.IsName suffix)
    (hbackslash : '\\' ∉ suffix.toList) {entry : String} (h : suffix.toList <:+ entry.toList) :
    ∃ name, (resolveEntry root entry).steps.getLast? = some (.into name) ∧
      suffix.toList <:+ name.toList := by
  obtain ⟨s, hs⟩ := h
  have hentry : normalizeSeparators entry =
      String.ofList ((normalizeSeparators (String.ofList s)).toList ++ suffix.toList) := by
    have htext : entry = String.ofList s ++ suffix := by
      rw [← String.toList_inj, ← hs, String.toList_append, String.toList_ofList]
    rw [htext, normalizeSeparators_append, normalizeSeparators_eq_self hbackslash,
      ← String.toList_inj, String.toList_append, String.toList_ofList]
  obtain ⟨before, name, hsteps, hsuffix⟩ :=
    Path.exists_last_step hname (normalizeSeparators (String.ofList s)).toList
  refine ⟨name, ?_, hsuffix⟩
  rw [steps_resolveEntry, steps_entryKey, hentry, hsteps, ← List.append_assoc,
    Path.foldSteps_concat_into, List.getLast?_concat]

/-- A comparison says no error at an entry. -/
def IsAccepted (t : FileTree) (m : Manifest) (inventory : Inventory) (root : Path)
    (suffix : String) (index : Nat) : Prop :=
  ∀ d ∈ (crossCheck t m inventory root suffix).diagnostics,
    d.location.entry = some index → d.isError = false

/-- An entry is accepted exactly if the check of it says nothing. -/
theorem isAccepted_iff_checkEntry {index : Nat} {value : Value}
    (hvalue : m.entries[index]? = some value) :
    IsAccepted t m inventory root suffix index ↔
      (checkEntry t m root suffix index value).diagnostics = [] := by
  constructor
  · intro h
    rw [List.eq_nil_iff_forall_not_mem]
    intro d hd
    obtain ⟨herror, hplace⟩ := isError_of_mem_checkEntry hd
    have hnoError := h d (mem_crossCheck_iff.2 (.inl (mem_checkEntries hvalue hd))) hplace.entry_eq
    rw [herror] at hnoError
    cases hnoError
  · intro hnil d hd hindex
    rcases mem_crossCheck_at hindex hd with ⟨value', hvalue', hentry, -⟩ | ⟨entry, -, -, rfl⟩
    · rw [hvalue] at hvalue'
      cases hvalue'
      rw [hnil] at hentry
      cases hentry
    · rfl

/-- **Accepted entries.** An entry is accepted exactly if it is a text with the suffix and without a
separator at its end that resolves to a file or to a directory; and what an accepted entry resolves
to has the suffix in its own name, if the suffix is a name. -/
theorem isAccepted_iff (t : FileTree) (inventory : Inventory) (root : Path) (suffix : String)
    {m : Manifest} {index : Nat} {value : Value} (hvalue : m.entries[index]? = some value) :
    (IsAccepted t m inventory root suffix index ↔
      ∃ entry, value = .string entry ∧ suffix.toList <:+ entry.toList ∧
        (∀ c, entry.toList.getLast? = some c → c ≠ '/' ∧ c ≠ '\\') ∧
        (t.isFile (resolveEntry root entry) = true ∨
          t.isDirectory (resolveEntry root entry) = true)) ∧
    (Path.IsName suffix → '\\' ∉ suffix.toList → IsAccepted t m inventory root suffix index →
      ∃ entry name, value = .string entry ∧
        (resolveEntry root entry).steps.getLast? = some (.into name) ∧
        suffix.toList <:+ name.toList) := by
  have haccepted : IsAccepted t m inventory root suffix index ↔
      ∃ entry, value = .string entry ∧ suffix.toList <:+ entry.toList ∧
        (∀ c, entry.toList.getLast? = some c → c ≠ '/' ∧ c ≠ '\\') ∧
        (t.isFile (resolveEntry root entry) = true ∨
          t.isDirectory (resolveEntry root entry) = true) := by
    simp only [isAccepted_iff_checkEntry hvalue, checkEntry_eq_nil_iff,
      FileTree.contains_iff]
  refine ⟨haccepted, ?_⟩
  intro hname hbackslash h
  obtain ⟨entry, htext, hsuffix, -, -⟩ := haccepted.1 h
  obtain ⟨name, hlast, hends⟩ := exists_name_resolveEntry root hname hbackslash hsuffix
  exact ⟨entry, name, htext, hlast, hends⟩

/-- A project in which a directory is named like a descriptor. -/
def directoryNamed : FileTree :=
  ⟨[("w", .directory [("a.md", .directory []), ("b.md", .file none)])]⟩

/-- A manifest that lists a directory and a file. -/
def listsDirectory : Manifest :=
  ⟨⟨"/w/plugin.json"⟩, "agents", [.string "a.md", .string "b.md"]⟩

/-- An entry for a directory with the name of a descriptor is accepted, and resolves to a path with the
suffix. -/
theorem isAccepted_of_directoryNamed :
    listsDirectory.entries[0]? = some (.string "a.md") ∧ Path.IsName ".md" ∧
      '\\' ∉ ".md".toList ∧
      IsAccepted directoryNamed listsDirectory (.ofNames ⟨"/w"⟩ ["b.md"]) ⟨"/w"⟩ ".md" 0 ∧
      ∃ entry name, Value.string "a.md" = .string entry ∧
        (resolveEntry ⟨"/w"⟩ entry).steps.getLast? = some (.into name) ∧
        ".md".toList <:+ name.toList := by
  have hentry : listsDirectory.entries[0]? = some (.string "a.md") := rfl
  have hname : Path.IsName ".md" := by decide
  have hiff := isAccepted_iff directoryNamed (.ofNames ⟨"/w"⟩ ["b.md"]) ⟨"/w"⟩ ".md" hentry
  have haccepted :=
    hiff.1.2 ⟨"a.md", rfl, by decide, by simp, .inr (by decide +kernel)⟩
  exact ⟨hentry, hname, by decide, haccepted, hiff.2 hname (by decide) haccepted⟩

/-- A directory whose name has the suffix is accepted. -/
theorem isAccepted_directory :
    directoryNamed.WellNamed ∧ (Path.mk "/w").isAbsolute = true ∧ ".md" ≠ "" ∧
      IsAccepted directoryNamed listsDirectory (.ofNames ⟨"/w"⟩ ["b.md"]) ⟨"/w"⟩ ".md" 0 ∧
      listsDirectory.entries[0]? = some (.string "a.md") ∧
      directoryNamed.isDirectory (resolveEntry ⟨"/w"⟩ "a.md") = true ∧
      directoryNamed.isFile (resolveEntry ⟨"/w"⟩ "a.md") = false := by
  have hentry : listsDirectory.entries[0]? = some (.string "a.md") := rfl
  have hnames : directoryNamed.WellNamed := by
    refine .directory (by decide) ?_
    intro e he
    rw [List.mem_singleton.1 he]
    refine .directory (by decide) ?_
    intro e he
    rcases List.mem_pair.1 he with rfl | rfl
    · exact .directory (by decide) fun e he => absurd he List.not_mem_nil
    · exact .file _
  refine ⟨hnames, by decide, by decide, ?_, hentry, by decide +kernel, by decide +kernel⟩
  rw [isAccepted_iff_checkEntry hentry]
  decide +kernel

end Preflight.Manifest
