import Preflight.Manifest.Inventory
import Preflight.Proofs.FileTree.Names

/-!
# What an inventory holds

The inventory of a directory names the files directly in it whose names have the
suffix, each once and in increasing order. A file whose joined path is longer than
the longest that is looked up is not named (`mem_names_scan_iff`).
-/

set_option autoImplicit false

namespace Preflight.Inventory

variable {t : FileTree} {dir : Path} {suffix : String} {inventory : Inventory}

/-- The test for a suffix is that the name ends with it. -/
theorem hasSuffix_iff (suffix name : String) :
    hasSuffix suffix name = true ↔ suffix.toList <:+ name.toList := by
  unfold hasSuffix
  exact List.isSuffixOf_iff_suffix

/-- The names of an inventory are in order. -/
theorem names_sorted (inventory : Inventory) : inventory.names.Pairwise (· < ·) :=
  inventory.files.keys_sorted

/-- No name is in an inventory twice. -/
theorem names_nodup (inventory : Inventory) : inventory.names.Nodup := by
  refine inventory.names_sorted.imp ?_
  intro a b hlt heq
  rw [heq] at hlt
  exact String.lt_irrefl b hlt

/-- The size of an inventory is the number of its names. -/
theorem size_eq (inventory : Inventory) : inventory.size = inventory.names.length := by
  unfold size names Table.size Table.keys
  rw [List.length_map]

/-- The names of an inventory are those from which it is made. -/
theorem mem_names_ofNames (dir : Path) (names : List String) (name : String) :
    name ∈ (ofNames dir names).names ↔ name ∈ names := by
  unfold ofNames
  have hkeys := Table.mem_keys_ofList (names.map fun name => (name, ())) name
  rw [List.map_map] at hkeys
  simpa [Inventory.names, Function.comp_def] using hkeys

/-- A directory can be scanned, and nothing else can. -/
theorem scan_eq_ok_iff (t : FileTree) (dir : Path) (suffix : String) (inventory : Inventory) :
    scan t dir suffix = .ok inventory ↔
      ∃ place entries, t.locate dir = .ok place ∧ t.node? place = some (.directory entries) ∧
        inventory = ofNames dir ((Node.directory entries).names.filter fun name =>
          t.isFile (dir.join ⟨name⟩) && hasSuffix suffix name) := by
  unfold scan FileTree.readDirectory
  cases hlocate : t.locate dir with
  | error e => simp [Except.map]
  | ok place =>
    cases hnode : t.node? place with
    | none => simp [Except.map, hnode]
    | some node =>
      cases node with
      | file text? => simp [Except.map, hnode]
      | directory entries =>
        simp only [Except.map, hnode, Except.ok.injEq]
        constructor
        · intro h
          exact ⟨place, entries, rfl, hnode, h.symm⟩
        · rintro ⟨place', entries', hplace, hnode', heq⟩
          rw [← hplace, hnode] at hnode'
          cases hnode'
          exact heq.symm

/-- An inventory is one of the directory that is scanned. -/
theorem dir_of_scan (h : scan t dir suffix = .ok inventory) : inventory.dir = dir := by
  obtain ⟨place, entries, -, -, rfl⟩ := (scan_eq_ok_iff t dir suffix inventory).1 h
  rfl

/-- All names in the inventory of a well-named tree are names of files. -/
theorem isFileName_of_scan (ht : t.WellNamed) (h : scan t dir suffix = .ok inventory)
    {name : String} (hname : name ∈ inventory.names) : IsFileName name := by
  obtain ⟨place, entries, -, hnode, rfl⟩ := (scan_eq_ok_iff t dir suffix inventory).1 h
  rw [mem_names_ofNames] at hname
  exact ht.isFileName hnode (List.mem_filter.1 hname).1

/-- An inventory names the files directly in its directory that have the suffix and whose joined
path is not too long. -/
theorem mem_names_scan_iff (ht : t.WellNamed) (h : scan t dir suffix = .ok inventory)
    {place : List String} (hplace : t.locate dir = .ok place) (name : String) :
    name ∈ inventory.names ↔ (∃ text?, t.node? (place ++ [name]) = some (.file text?)) ∧
      suffix.toList <:+ name.toList ∧
      (dir.join ⟨name⟩).text.utf8ByteSize ≤ FileTree.maxPathBytes := by
  obtain ⟨place', entries, hlocate, hnode, rfl⟩ := (scan_eq_ok_iff t dir suffix inventory).1 h
  have heq : place' = place := Except.ok.inj (hlocate.symm.trans hplace)
  subst heq
  rw [mem_names_ofNames, List.mem_filter, Bool.and_eq_true, hasSuffix_iff]
  constructor
  · rintro ⟨hmem, hfile, hsuffix⟩
    have hname := ht.isFileName hnode hmem
    obtain ⟨hfile, hshort⟩ := (FileTree.isFile_join_name_iff hlocate hnode hname).1 hfile
    exact ⟨hfile, hsuffix, hshort⟩
  · rintro ⟨⟨text?, hfile⟩, hsuffix, hshort⟩
    have hchild : (Node.directory entries).child? name = some (.file text?) := by
      rw [← hfile, FileTree.node?_concat, hnode, Option.bind_some]
    have hmem : name ∈ (Node.directory entries).names := by
      rw [Node.mem_names_iff, hchild]
      rfl
    have hname := ht.isFileName hnode hmem
    have hisFile := (FileTree.isFile_join_name_iff hlocate hnode hname).2 ⟨⟨text?, hfile⟩, hshort⟩
    exact ⟨hmem, hisFile, hsuffix⟩

end Preflight.Inventory
