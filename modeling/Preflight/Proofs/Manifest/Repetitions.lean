import Preflight.Proofs.Manifest.EntryKeys
import Preflight.Proofs.Manifest.Remarks

/-!
# Repeated entries

An entry is said to be listed more than once exactly if an earlier entry has the same
key. Among entries that start alike, at the root of all files or not, such a warning is
right: both resolve to the same path. Among entries without detours it is never missed
either (`repetition_mem_crossCheck_iff`).

Beyond that keys and paths part: a detour hides a repetition, and so does a dot before
a backslash; and an entry of which the dots at the start are followed by one more
separator has the key of another file (`repetition_ne_same_path`).
-/

set_option autoImplicit false

namespace Preflight.Manifest

open Preflight.Json (Value)

/-- **Repeated entries.** An entry is said to be listed more than once exactly if an earlier one has
its key; then an earlier one resolves to the same path if all start alike; and an entry without
detours after entries without detours is said to be listed more than once exactly if an earlier one
resolves to the same path. -/
theorem repetition_mem_crossCheck_iff (t : FileTree) (inventory : Inventory) (root : Path)
    (suffix : String) {m : Manifest} {index : Nat} {entry : String}
    (hentry : m.entries[index]? = some (.string entry)) :
    (m.repetition index entry ∈ (crossCheck t m inventory root suffix).diagnostics ↔
      ∃ earlier, Value.string earlier ∈ m.entries.take index ∧ entryKey earlier = entryKey entry) ∧
    ((∀ earlier, Value.string earlier ∈ m.entries.take index →
        startsAtRoot earlier = startsAtRoot entry) →
      m.repetition index entry ∈ (crossCheck t m inventory root suffix).diagnostics →
      ∃ earlier, Value.string earlier ∈ m.entries.take index ∧
        resolveEntry root earlier = resolveEntry root entry) ∧
    ∀ absolute, IsDirect absolute entry →
      (∀ earlier, Value.string earlier ∈ m.entries.take index → IsDirect absolute earlier) →
      (m.repetition index entry ∈ (crossCheck t m inventory root suffix).diagnostics ↔
        ∃ earlier, Value.string earlier ∈ m.entries.take index ∧
          resolveEntry root earlier = resolveEntry root entry) := by
  have hkeys : m.repetition index entry ∈ (crossCheck t m inventory root suffix).diagnostics ↔
      ∃ earlier, Value.string earlier ∈ m.entries.take index ∧
        entryKey earlier = entryKey entry := by
    constructor
    · intro hd
      rcases mem_crossCheck_at rfl hd with ⟨value, -, -, herror⟩ | ⟨entry', hentry', hearlier, -⟩
      · cases herror
      · rw [hentry] at hentry'
        cases hentry'
        exact hearlier
    · intro hearlier
      rw [mem_crossCheck_iff]
      exact .inr (.inl (mem_checkRepetitions_iff.2 ⟨index, entry, hentry, hearlier, rfl⟩))
  have hsound : (∀ earlier, Value.string earlier ∈ m.entries.take index →
        startsAtRoot earlier = startsAtRoot entry) →
      m.repetition index entry ∈ (crossCheck t m inventory root suffix).diagnostics →
      ∃ earlier, Value.string earlier ∈ m.entries.take index ∧
        resolveEntry root earlier = resolveEntry root entry := by
    intro hstarts hd
    obtain ⟨earlier, hmem, hkey⟩ := hkeys.1 hd
    exact ⟨earlier, hmem, resolveEntry_eq_of_entryKey_eq root (hstarts earlier hmem) hkey⟩
  refine ⟨hkeys, hsound, ?_⟩
  intro absolute hdirect hearlier
  constructor
  · exact hsound fun earlier hmem => (hearlier earlier hmem).1.trans hdirect.1.symm
  · rintro ⟨earlier, hmem, hpath⟩
    exact hkeys.2 ⟨earlier, hmem, entryKey_eq_of_resolveEntry_eq (hearlier earlier hmem) hdirect hpath⟩

/-- A manifest whose last entry is another spelling of its first. -/
def respelled : Manifest :=
  ⟨⟨"/w/plugin.json"⟩, "agents",
    [.string "./agents/a.md", .string "agents\\b.md", .string "././agents\\a.md"]⟩

/-- Dots at the start and both separators make no difference. -/
theorem repetition_mem_crossCheck_of_respelled :
    respelled.entries[2]? = some (.string "././agents\\a.md") ∧
      IsDirect false "././agents\\a.md" ∧
      (∀ earlier, Value.string earlier ∈ respelled.entries.take 2 → IsDirect false earlier) ∧
      (respelled.repetition 2 "././agents\\a.md" ∈
        (crossCheck .empty respelled (.ofNames ⟨"/w/agents"⟩ []) ⟨"/w"⟩ ".md").diagnostics ↔
        ∃ earlier, Value.string earlier ∈ respelled.entries.take 2 ∧
          resolveEntry ⟨"/w"⟩ earlier = resolveEntry ⟨"/w"⟩ "././agents\\a.md") := by
  have hnamesA : ∀ name ∈ ["agents", "a.md"], Path.IsName name := by decide
  have hnamesB : ∀ name ∈ ["agents", "b.md"], Path.IsName name := by decide
  have hlast : IsDirect false "././agents\\a.md" :=
    ⟨by decide, ["agents", "a.md"], hnamesA, by decide +kernel⟩
  have hearlier : ∀ earlier, Value.string earlier ∈ respelled.entries.take 2 →
      IsDirect false earlier := by
    intro earlier hmem
    rcases List.mem_pair.1 hmem with heq | heq
    · cases heq
      exact ⟨by decide, ["agents", "a.md"], hnamesA, by decide +kernel⟩
    · cases heq
      exact ⟨by decide, ["agents", "b.md"], hnamesB, by decide +kernel⟩
  exact ⟨rfl, hlast, hearlier, (repetition_mem_crossCheck_iff .empty (.ofNames ⟨"/w/agents"⟩ [])
    ⟨"/w"⟩ ".md" rfl).2.2 false hlast hearlier⟩

/-- A manifest with three spellings of one path, of which no two have the same key. -/
def threeSpellings : Manifest :=
  ⟨⟨"/w/plugin.json"⟩, "agents",
    [.string "./agents/a.md", .string ".\\agents\\a.md", .string "agents/../agents/a.md"]⟩

/-- A manifest whose second entry has one separator too many after its dot. -/
def overSeparated : Manifest :=
  ⟨⟨"/w/plugin.json"⟩, "agents", [.string "/a.md", .string ".//a.md"]⟩

/-- Repetitions in another spelling are missed, and an entry is taken for a repetition of another
file. -/
theorem repetition_ne_same_path :
    (resolveEntry ⟨"/w"⟩ "./agents/a.md" = resolveEntry ⟨"/w"⟩ ".\\agents\\a.md" ∧
      threeSpellings.repetition 1 ".\\agents\\a.md" ∉
        (crossCheck .empty threeSpellings (.ofNames ⟨"/w/agents"⟩ ["a.md"]) ⟨"/w"⟩ ".md").diagnostics ∧
      resolveEntry ⟨"/w"⟩ "./agents/a.md" = resolveEntry ⟨"/w"⟩ "agents/../agents/a.md" ∧
      threeSpellings.repetition 2 "agents/../agents/a.md" ∉
        (crossCheck .empty threeSpellings (.ofNames ⟨"/w/agents"⟩ ["a.md"]) ⟨"/w"⟩ ".md").diagnostics) ∧
    resolveEntry ⟨"/w"⟩ "/a.md" ≠ resolveEntry ⟨"/w"⟩ ".//a.md" ∧
      overSeparated.repetition 1 ".//a.md" ∈
        (crossCheck .empty overSeparated (.ofNames ⟨"/w"⟩ ["a.md"]) ⟨"/w"⟩ ".md").diagnostics := by
  decide +kernel

end Preflight.Manifest
