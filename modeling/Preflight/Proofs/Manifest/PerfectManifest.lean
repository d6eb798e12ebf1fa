import Mathlib.Data.List.Nodup
import Mathlib.Data.List.Perm.Subperm
import Mathlib.Data.Set.Function
import Preflight.Proofs.Manifest.EntryKeys
import Preflight.Proofs.Manifest.Remarks
import Preflight.Proofs.Manifest.Scanning

/-!
# Manifests about which there is nothing to say

A manifest is perfect for a directory if its entries are texts that could name
descriptors, what they resolve to exists, and they resolve to the files of the
directory one to one. The main statement is that the comparison of a manifest with
an inventory says nothing exactly if the manifest is perfect
(`crossCheck_isEmpty_iff`).

No single check looks for this. That entries resolve to different files follows from
their number, since every file is declared by one of them. Conversely, repeated
entries are found by a key that may be the same for two entries which resolve to
different paths, such as `.//x.md` and `/x.md`; but of such a pair not both resolve
to files of one directory (`name_eq_of_entryKey_eq`).
-/

set_option autoImplicit false

namespace Preflight.Manifest

open Preflight.Json (Value)

/-- The entries of a manifest are texts with the suffix of descriptors that are no names of
directories, what they resolve to exists, and they resolve to the files of an inventory one to one. -/
structure IsPerfect (t : FileTree) (m : Manifest) (inventory : Inventory) (root : Path)
    (suffix : String) (entries : List String) : Prop where
  texts : m.entries = entries.map Value.string
  suffix : ∀ entry ∈ entries, suffix.toList <:+ entry.toList
  noDirectory : ∀ entry ∈ entries, ∀ c, entry.toList.getLast? = some c → c ≠ '/' ∧ c ≠ '\\'
  exist : ∀ entry ∈ entries, t.contains (resolveEntry root entry) = true
  bijection : Set.BijOn (fun i : Fin entries.length => resolveEntry root entries[i]) Set.univ
    {path | ∃ name ∈ inventory.names, path = (inventory.pathOf name).clean}

/-! ### Entries on their own -/

section

variable {t : FileTree} {m : Manifest} {root : Path} {suffix : String}

/-- An entry is no name of a directory exactly if it does not end in a separator. -/
theorem isDirectoryName_eq_false_iff (entry : String) :
    isDirectoryName entry = false ↔
      ∀ c, entry.toList.getLast? = some c → c ≠ '/' ∧ c ≠ '\\' := by
  unfold isDirectoryName
  cases entry.toList.getLast? with
  | none => simp
  | some c => simp

/-- The check of an entry says nothing exactly if the entry is a text with the suffix, not the name of a
directory, and leads to something. -/
theorem checkEntry_eq_nil_iff (index : Nat) (value : Value) :
    (checkEntry t m root suffix index value).diagnostics = [] ↔
      ∃ entry, value = .string entry ∧ suffix.toList <:+ entry.toList ∧
        (∀ c, entry.toList.getLast? = some c → c ≠ '/' ∧ c ≠ '\\') ∧
        t.contains (resolveEntry root entry) = true := by
  cases value with
  | string entry =>
    simp only [checkEntry, List.append_eq_nil_iff, Option.toList_eq_nil_iff, Value.string.injEq,
      exists_eq_left']
    rw [← isDirectoryName_eq_false_iff, ← Inventory.hasSuffix_iff]
    have hdirectory : m.directoryIssue? index entry = none ↔ isDirectoryName entry = false := by
      unfold directoryIssue?
      split <;> simp_all
    have hsuffix : m.suffixIssue? index entry suffix = none ↔
        Inventory.hasSuffix suffix entry = true := by
      unfold suffixIssue?
      split <;> simp_all
    have hexists : existenceIssue? t m root index entry = none ↔
        t.contains (resolveEntry root entry) = true := by
      simp only [existenceIssue?]
      split <;> simp_all
    rw [hdirectory, hsuffix, hexists, and_assoc]
    exact and_left_comm
  | _ => simp [checkEntry, Outcome.single]

/-- The check of all entries says nothing exactly if the check of each says nothing. -/
theorem checkEntries_eq_nil_iff :
    (checkEntries t m root suffix).diagnostics = [] ↔
      ∀ value ∈ m.entries, ∃ entry, value = .string entry ∧ suffix.toList <:+ entry.toList ∧
        (∀ c, entry.toList.getLast? = some c → c ≠ '/' ∧ c ≠ '\\') ∧
        t.contains (resolveEntry root entry) = true := by
  unfold checkEntries Outcome.concat
  rw [List.flatMap_eq_nil_iff, List.forall_mem_map]
  constructor
  · intro h value hvalue
    obtain ⟨i, hi, rfl⟩ := List.mem_iff_getElem.1 hvalue
    have hmem : (m.entries[i], i) ∈ m.entries.zipIdx :=
      List.mk_mem_zipIdx_iff_getElem?.2 (List.getElem?_eq_getElem hi)
    exact (checkEntry_eq_nil_iff i m.entries[i]).1 (h _ hmem)
  · intro h e he
    exact (checkEntry_eq_nil_iff e.2 e.1).2 (h e.1 (List.fst_mem_of_mem_zipIdx he))

/-- Values that are all texts come from a list of texts. -/
theorem exists_texts {values : List Value} (h : ∀ value ∈ values, ∃ entry, value = .string entry) :
    ∃ entries : List String, values = entries.map Value.string := by
  induction values with
  | nil => exact ⟨[], rfl⟩
  | cons value values ih =>
    obtain ⟨entry, rfl⟩ := h value List.mem_cons_self
    obtain ⟨entries, rfl⟩ := ih fun v hv => h v (List.mem_cons_of_mem _ hv)
    exact ⟨entry :: entries, rfl⟩

/-- The paths that are declared by texts are the paths to which they resolve. -/
theorem declared_of_texts {entries : List String} (h : m.entries = entries.map Value.string) :
    m.declared root = entries.map (resolveEntry root) := by
  unfold declared
  rw [h, List.filterMap_map]
  congr 1
  exact List.filterMap_some

/-! ### Entries together -/

/-- The count is not complained about exactly if there are as many entries as descriptors. -/
theorem checkCount_eq_nil_iff (inventory : Inventory) :
    (m.checkCount inventory).diagnostics = [] ↔ m.entries.length = inventory.size := by
  unfold checkCount
  split
  · rename_i h
    simp [h, Outcome.clean]
  · rename_i h
    simp [h, Outcome.single]

/-- No descriptor is undeclared exactly if each has its path among those that are declared. -/
theorem checkUndeclared_eq_nil_iff (inventory : Inventory) :
    (m.checkUndeclared inventory root).diagnostics = [] ↔
      ∀ name ∈ inventory.names, (inventory.pathOf name).clean ∈ m.declared root := by
  unfold checkUndeclared
  simp [List.filter_eq_nil_iff]

/-- Entries with different keys repeat nothing. -/
theorem checkRepetitions_eq_nil {entries : List String} (htexts : m.entries = entries.map Value.string)
    (hkeys : (entries.map entryKey).Nodup) : m.checkRepetitions.diagnostics = [] := by
  rw [List.eq_nil_iff_forall_not_mem]
  intro d hd
  obtain ⟨index, entry, hvalue, ⟨earlier, hmem, hkey⟩, -⟩ := mem_checkRepetitions_iff.1 hd
  rw [htexts] at hvalue hmem
  rw [List.getElem?_map] at hvalue
  obtain ⟨entry', hentry, heq⟩ := Option.map_eq_some_iff.1 hvalue
  cases heq
  rw [← List.map_take, List.mem_map] at hmem
  obtain ⟨earlier', hearlier, heq⟩ := hmem
  cases heq
  obtain ⟨j, hj, hget⟩ := List.mem_take_iff_getElem.1 hearlier
  obtain ⟨hindex, hentry⟩ := List.getElem?_eq_some_iff.1 hentry
  have hj' : j < (entries.map entryKey).length := by
    rw [List.length_map]
    omega
  have hindex' : index < (entries.map entryKey).length := by rwa [List.length_map]
  have hsame : (entries.map entryKey)[j] = (entries.map entryKey)[index] := by
    rw [List.getElem_map, List.getElem_map, hget, hentry, hkey]
  have heq : j = index := hkeys.getElem_inj_iff.1 hsame
  omega

end

/-! ### The files of an inventory -/

section

variable {inventory : Inventory}

/-- The cleaned paths of the files of an inventory. -/
def cleanedPaths (inventory : Inventory) : List Path :=
  inventory.names.map fun name => (inventory.pathOf name).clean

/-- The path of a descriptor ends with a step into its name. -/
theorem getLast?_steps_pathOf (inventory : Inventory) {name : String} (hname : Path.IsName name) :
    (inventory.pathOf name).clean.steps.getLast? = some (.into name) := by
  unfold Inventory.pathOf
  rw [Path.steps_clean, Path.steps_join_name _ hname, Path.foldSteps_concat_into,
    List.getLast?_concat]

/-- Different descriptors have different paths. -/
theorem nodup_cleanedPaths (hnames : ∀ name ∈ inventory.names, Path.IsName name) :
    (cleanedPaths inventory).Nodup := by
  apply List.Nodup.map_on _ inventory.names_nodup
  intro name hname name' hname' heq
  have hlast := getLast?_steps_pathOf inventory (hnames name hname)
  rw [heq, getLast?_steps_pathOf inventory (hnames name' hname')] at hlast
  exact (Path.Step.into.inj (Option.some.inj hlast)).symm

/-- Of the entries that resolve to files of an inventory no two have the same key, if they resolve
to different files. -/
theorem nodup_entryKey (hnames : ∀ name ∈ inventory.names, Path.IsName name) {root : Path}
    {entries : List String} (hdifferent : (entries.map (resolveEntry root)).Nodup)
    (hfiles : ∀ entry ∈ entries, resolveEntry root entry ∈ cleanedPaths inventory) :
    (entries.map entryKey).Nodup := by
  have hinjective : ∀ entry ∈ entries, ∀ entry' ∈ entries, entryKey entry = entryKey entry' →
      resolveEntry root entry = resolveEntry root entry' := by
    intro entry hentry entry' hentry' hkey
    obtain ⟨name, hname, hpath⟩ := List.mem_map.1 (hfiles entry hentry)
    obtain ⟨name', hname', hpath'⟩ := List.mem_map.1 (hfiles entry' hentry')
    have hlast := getLast?_steps_pathOf inventory (hnames name hname)
    have hlast' := getLast?_steps_pathOf inventory (hnames name' hname')
    rw [hpath] at hlast
    rw [hpath'] at hlast'
    rw [← hpath, ← hpath', name_eq_of_entryKey_eq hkey hlast hlast']
  rw [List.nodup_map_iff_inj_on (hdifferent.of_map _)]
  intro entry hentry entry' hentry' hkey
  have hsame := hinjective entry hentry entry' hentry' hkey
  exact List.inj_on_of_nodup_map hdifferent hentry hentry' hsame

/-! ### One to one -/

/-- Positions of a list lead one to one to paths without repetition exactly if the paths of the
list are these paths in some order. -/
theorem bijOn_iff_perm {entries : List String} (f : String → Path) {paths : List Path}
    (hpaths : paths.Nodup) :
    Set.BijOn (fun i : Fin entries.length => f entries[i]) Set.univ {path | path ∈ paths} ↔
      (entries.map f).Perm paths := by
  constructor
  · rintro ⟨hmaps, hinjective, hsurjective⟩
    have hnodup : (entries.map f).Nodup := by
      rw [List.nodup_iff_injective_getElem]
      intro i j heq
      have hi : i.val < entries.length := by simpa using i.isLt
      have hj : j.val < entries.length := by simpa using j.isLt
      have hsame : f entries[i.val] = f entries[j.val] := by simpa using heq
      have hindex := hinjective (Set.mem_univ ⟨i.val, hi⟩) (Set.mem_univ ⟨j.val, hj⟩) hsame
      exact Fin.ext (by simpa using hindex)
    rw [List.perm_ext_iff_of_nodup hnodup hpaths]
    intro path
    constructor
    · intro hpath
      obtain ⟨entry, hentry, rfl⟩ := List.mem_map.1 hpath
      obtain ⟨i, hi, rfl⟩ := List.mem_iff_getElem.1 hentry
      exact hmaps (Set.mem_univ ⟨i, hi⟩)
    · intro hpath
      obtain ⟨i, -, rfl⟩ := hsurjective hpath
      exact List.mem_map_of_mem (List.getElem_mem i.isLt)
  · intro hperm
    refine ⟨?_, ?_, ?_⟩
    · intro i _
      exact hperm.mem_iff.1 (List.mem_map_of_mem (List.getElem_mem i.isLt))
    · intro i _ j _ heq
      have hnodup : (entries.map f).Nodup := hperm.nodup_iff.2 hpaths
      have hi : i.val < (entries.map f).length := by simp
      have hj : j.val < (entries.map f).length := by simp
      have hsame : (entries.map f)[i.val] = (entries.map f)[j.val] := by simpa using heq
      exact Fin.ext (hnodup.getElem_inj_iff.1 hsame)
    · intro path hpath
      obtain ⟨entry, hentry, rfl⟩ := List.mem_map.1 (hperm.mem_iff.2 hpath)
      obtain ⟨i, hi, rfl⟩ := List.mem_iff_getElem.1 hentry
      exact ⟨⟨i, hi⟩, Set.mem_univ _, rfl⟩

/-- The paths that entries resolve to are those of the files of an inventory in some order, if there
are as many entries as files and each file is declared. -/
theorem perm_cleanedPaths {entries : List String} {root : Path}
    (hnames : ∀ name ∈ inventory.names, Path.IsName name)
    (hcount : entries.length = inventory.size)
    (hdeclared : ∀ name ∈ inventory.names,
      (inventory.pathOf name).clean ∈ entries.map (resolveEntry root)) :
    (entries.map (resolveEntry root)).Perm (cleanedPaths inventory) := by
  have hsubset : cleanedPaths inventory ⊆ entries.map (resolveEntry root) := by
    intro path hpath
    obtain ⟨name, hname, rfl⟩ := List.mem_map.1 hpath
    exact hdeclared name hname
  have hlength : (entries.map (resolveEntry root)).length ≤ (cleanedPaths inventory).length := by
    unfold cleanedPaths
    rw [List.length_map, List.length_map, hcount, inventory.size_eq]
  have hsubperm := (nodup_cleanedPaths hnames).subperm hsubset
  exact (hsubperm.perm_of_length_le hlength).symm

end

/-- **When there is nothing to say about a manifest.** The comparison of a manifest with the
inventory of a directory says nothing exactly if the manifest is perfect. -/
theorem crossCheck_isEmpty_iff {t : FileTree} (ht : t.WellNamed) {dir : Path} {scanned : String}
    {inventory : Inventory} (hscan : Inventory.scan t dir scanned = .ok inventory) (m : Manifest)
    (root : Path) (suffix : String) :
    (crossCheck t m inventory root suffix).isEmpty = true ↔
      ∃ entries, IsPerfect t m inventory root suffix entries := by
  have hnames : ∀ name ∈ inventory.names, Path.IsName name := by
    intro name hname
    exact (Inventory.isFileName_of_scan ht hscan hname).toIsName
  have hset : {path | ∃ name ∈ inventory.names, path = (inventory.pathOf name).clean} =
      {path | path ∈ cleanedPaths inventory} := by
    ext path
    simp [cleanedPaths, eq_comm]
  unfold Outcome.isEmpty crossCheck
  rw [List.isEmpty_iff]
  simp only [Outcome.diagnostics_append, List.append_eq_nil_iff, checkEntries_eq_nil_iff,
    checkCount_eq_nil_iff, checkUndeclared_eq_nil_iff]
  constructor
  · rintro ⟨⟨⟨hentries, -⟩, hcount⟩, hdeclared⟩
    obtain ⟨entries, htexts⟩ := exists_texts fun value hvalue =>
      (hentries value hvalue).imp fun entry h => h.1
    have hentry : ∀ entry ∈ entries, suffix.toList <:+ entry.toList ∧
        (∀ c, entry.toList.getLast? = some c → c ≠ '/' ∧ c ≠ '\\') ∧
        t.contains (resolveEntry root entry) = true := by
      intro entry hmem
      have hvalue : Value.string entry ∈ m.entries := by
        rw [htexts]
        exact List.mem_map_of_mem hmem
      obtain ⟨entry', heq, h⟩ := hentries _ hvalue
      rw [Value.string.inj heq]
      exact h
    rw [htexts, List.length_map] at hcount
    rw [declared_of_texts htexts] at hdeclared
    have hperm := perm_cleanedPaths hnames hcount hdeclared
    refine ⟨entries, htexts, fun entry h => (hentry entry h).1, fun entry h => (hentry entry h).2.1,
      fun entry h => (hentry entry h).2.2, ?_⟩
    rw [hset]
    exact (bijOn_iff_perm (resolveEntry root) (nodup_cleanedPaths hnames)).2 hperm
  · rintro ⟨entries, h⟩
    have hbijection := h.bijection
    rw [hset] at hbijection
    have hperm := (bijOn_iff_perm (resolveEntry root) (nodup_cleanedPaths hnames)).1 hbijection
    have hdifferent : (entries.map (resolveEntry root)).Nodup :=
      hperm.nodup_iff.2 (nodup_cleanedPaths hnames)
    have hfiles : ∀ entry ∈ entries, resolveEntry root entry ∈ cleanedPaths inventory :=
      fun entry hentry => hperm.mem_iff.1 (List.mem_map_of_mem hentry)
    have hkeys := nodup_entryKey hnames hdifferent hfiles
    refine ⟨⟨⟨?_, checkRepetitions_eq_nil h.texts hkeys⟩, ?_⟩, ?_⟩
    · intro value hvalue
      rw [h.texts] at hvalue
      obtain ⟨entry, hentry, rfl⟩ := List.mem_map.1 hvalue
      exact ⟨entry, rfl, h.suffix entry hentry, h.noDirectory entry hentry, h.exist entry hentry⟩
    · have hlength := hperm.length_eq
      unfold cleanedPaths at hlength
      rw [List.length_map, List.length_map] at hlength
      rw [h.texts, List.length_map, hlength, inventory.size_eq]
    · intro name hname
      rw [declared_of_texts h.texts]
      exact hperm.mem_iff.2 (List.mem_map_of_mem hname)

/-- A project with two descriptors. -/
def twoDescriptors : FileTree :=
  ⟨[("w", .directory [("agents", .directory [("a.md", .file (some "")), ("b.md", .file none)])])]⟩

/-- The names in the directory of the example are those of files. -/
theorem wellNamed_twoDescriptors : twoDescriptors.WellNamed := by
  have hfiles : (Node.directory [("a.md", .file (some "")), ("b.md", .file none)]).WellNamed := by
    refine .directory (by decide) ?_
    intro e he
    rcases List.mem_pair.1 he with rfl | rfl
    · exact .file _
    · exact .file _
  refine .directory (by decide) ?_
  intro e he
  rw [List.mem_singleton.1 he]
  refine .directory (by decide) ?_
  intro e he
  rw [List.mem_singleton.1 he]
  exact hfiles

/-- Entries may be spelled with either separator, with dots, and from the root. -/
theorem crossCheck_isEmpty_of_spellings :
    twoDescriptors.WellNamed ∧
      Inventory.scan twoDescriptors ⟨"/w/agents"⟩ ".md" =
        .ok (.ofNames ⟨"/w/agents"⟩ ["a.md", "b.md"]) ∧
      ∃ entries, IsPerfect twoDescriptors
        ⟨⟨"/w/plugin.json"⟩, "agents", [.string ".\\agents/a.md", .string "/w/x/../agents/b.md"]⟩
        (.ofNames ⟨"/w/agents"⟩ ["a.md", "b.md"]) ⟨"/w"⟩ ".md" entries := by
  have hscan : Inventory.scan twoDescriptors ⟨"/w/agents"⟩ ".md" =
      .ok (.ofNames ⟨"/w/agents"⟩ ["a.md", "b.md"]) := by decide +kernel
  refine ⟨wellNamed_twoDescriptors, hscan, ?_⟩
  exact (crossCheck_isEmpty_iff wellNamed_twoDescriptors hscan _ ⟨"/w"⟩ ".md").1 (by decide +kernel)

end Preflight.Manifest
