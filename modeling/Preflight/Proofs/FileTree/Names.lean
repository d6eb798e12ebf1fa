import Preflight.FileTree.Lookup
import Preflight.Proofs.Bindings
import Preflight.Proofs.Path.Steps

/-!
# Names in a file tree

In a file tree that can exist every name is a single step of a path, holds no NUL
and is not too long. There a file is found under the path of its directory joined
with its name, unless this path is longer than the longest that is looked up
(`locate_join_name`, `isFile_join_name_iff`).
-/

set_option autoImplicit false

namespace Preflight

/-- A text that can be the name of a file. -/
structure IsFileName (name : String) : Prop extends Path.IsName name where
  no_zero : '\x00' ∉ name.toList
  short : name.utf8ByteSize ≤ FileTree.maxNameBytes

instance (name : String) : Decidable (IsFileName name) :=
  decidable_of_iff
    (((name ≠ "" ∧ name ≠ "." ∧ name ≠ "..") ∧ '/' ∉ name.toList) ∧ '\x00' ∉ name.toList ∧
      name.utf8ByteSize ≤ FileTree.maxNameBytes)
    ⟨fun ⟨⟨⟨h₁, h₂, h₃⟩, h₄⟩, h₅, h₆⟩ => ⟨⟨h₁, h₂, h₃, h₄⟩, h₅, h₆⟩,
      fun h => ⟨⟨⟨h.ne_empty, h.ne_dot, h.ne_dots⟩, h.no_separator⟩, h.no_zero, h.short⟩⟩

namespace Node

/-- All names from here on can be names of files. -/
inductive WellNamed : Node → Prop
  | file (text? : Option String) : WellNamed (.file text?)
  | directory {entries : List (String × Node)} (names : ∀ e ∈ entries, IsFileName e.1)
      (nodes : ∀ e ∈ entries, WellNamed e.2) : WellNamed (.directory entries)

/-- The names in a node are those of its children. -/
theorem mem_names_iff (n : Node) (name : String) : name ∈ n.names ↔ (n.child? name).isSome = true := by
  unfold names child?
  rw [Table.mem_keys_ofList, Option.isSome_map, List.find?_isSome, List.mem_map]
  constructor
  · rintro ⟨e, he, rfl⟩
    exact ⟨e, he, beq_self_eq_true _⟩
  · rintro ⟨e, he, hname⟩
    exact ⟨e, he, beq_iff_eq.1 hname⟩

/-- A child of a well-named node has a file's name and is well-named. -/
theorem WellNamed.child? {n m : Node} {name : String} (hn : n.WellNamed)
    (h : n.child? name = some m) : IsFileName name ∧ m.WellNamed := by
  obtain ⟨e, he, rfl⟩ := Option.map_eq_some_iff.1 h
  have hmem := List.mem_of_find?_eq_some he
  have hname : e.1 = name := by simpa using List.find?_some he
  cases hn with
  | file text? => cases hmem
  | directory names nodes => exact ⟨hname ▸ names e hmem, nodes e hmem⟩

/-- What is below a well-named node is well-named. -/
theorem WellNamed.descend? {n m : Node} {place : List String} (hn : n.WellNamed)
    (h : n.descend? place = some m) : m.WellNamed := by
  induction place generalizing n with
  | nil =>
    rw [Node.descend?, Option.some.injEq] at h
    exact h ▸ hn
  | cons name place ih =>
    rw [Node.descend?] at h
    obtain ⟨child, hchild, hrest⟩ := Option.bind_eq_some_iff.1 h
    exact ih (hn.child? hchild).2 hrest

/-- A descent in two parts is the one after the other. -/
theorem descend?_append (n : Node) (place rest : List String) :
    n.descend? (place ++ rest) = (n.descend? place).bind (Node.descend? rest) := by
  induction place generalizing n with
  | nil => rfl
  | cons name place ih =>
    rw [List.cons_append, Node.descend?, Node.descend?, Option.bind_assoc]
    congr 1
    funext child
    exact ih child

end Node

namespace FileTree

/-- A file tree that can exist: all its names can be names of files. -/
def WellNamed (t : FileTree) : Prop :=
  t.root.WellNamed

variable {t : FileTree} {dir : Path} {place : List String} {node : Node} {name : String}

/-- The node at a longer place is a child of the one before it. -/
theorem node?_concat (t : FileTree) (place : List String) (name : String) :
    t.node? (place ++ [name]) = (t.node? place).bind (·.child? name) := by
  unfold node?
  rw [Node.descend?_append]
  congr 1
  funext n
  simp only [Node.descend?]
  exact Option.bind_fun_some _

/-- All names in a directory of a well-named tree are names of files. -/
theorem WellNamed.isFileName (ht : t.WellNamed) (hnode : t.node? place = some node)
    (hname : name ∈ node.names) : IsFileName name := by
  obtain ⟨child, hchild⟩ := Option.isSome_iff_exists.1 ((node.mem_names_iff name).1 hname)
  have hnode' : node.WellNamed := Node.WellNamed.descend? ht hnode
  exact (hnode'.child? hchild).1

/-! ### Steps of a look-up -/

/-- An empty part leads from a place to the place itself, if anywhere. -/
theorem eq_of_step_empty {next : List String} (h : t.step place "" = .ok next) : next = place := by
  have hnone : Path.Step.ofPart? "" = none := by decide
  unfold step at h
  cases hnode : t.node? place with
  | none => simp [hnode] at h
  | some node =>
    cases node with
    | file text? => simp [hnode] at h
    | directory entries =>
      rw [hnode, hnone] at h
      exact (Except.ok.inj h).symm

/-- An empty part stays in a directory. -/
theorem step_empty {entries : List (String × Node)}
    (hplace : t.node? place = some (.directory entries)) : t.step place "" = .ok place := by
  have hnone : Path.Step.ofPart? "" = none := by decide
  unfold step
  rw [hplace, hnone]

/-- From a directory a name leads to the child of that name, if there is one. -/
theorem step_name {entries : List (String × Node)} (hname : IsFileName name)
    (hplace : t.node? place = some (.directory entries)) :
    t.step place name =
      if ((Node.directory entries).child? name).isSome then .ok (place ++ [name])
      else .error .notFound := by
  have hlong : ¬ maxNameBytes < name.utf8ByteSize := by
    have hshort := hname.short
    omega
  unfold step
  rw [hplace, Path.ofPart?_of_isName hname.toIsName]
  simp only [if_neg hlong]

/-- A walk in two parts is the one after the other. -/
theorem walk_append (t : FileTree) (place : List String) (parts parts' : List String) :
    t.walk place (parts ++ parts') = t.walk place parts >>= fun next => t.walk next parts' := by
  unfold walk
  rw [List.foldlM_append]

/-- A walk along one part is a step. -/
theorem walk_singleton (t : FileTree) (place : List String) (part : String) :
    t.walk place [part] = t.step place part := by
  unfold walk
  rw [List.foldlM_cons]
  exact bind_pure _

/-! ### Directories -/

/-- A path is one of a directory exactly if it leads to a place where a directory is. -/
theorem isDirectory_iff (t : FileTree) (dir : Path) :
    t.isDirectory dir = true ↔
      ∃ place entries, t.locate dir = .ok place ∧ t.node? place = some (.directory entries) := by
  unfold isDirectory find?
  cases hlocate : t.locate dir with
  | error e => simp
  | ok place =>
    cases hnode : t.node? place with
    | none => simp [hnode]
    | some node =>
      cases node with
      | file text? => simp [hnode, Node.isDirectory]
      | directory entries => simp [hnode, Node.isDirectory]

/-- What a path leads to is a file or a directory. -/
theorem contains_iff (t : FileTree) (p : Path) :
    t.contains p = true ↔ t.isFile p = true ∨ t.isDirectory p = true := by
  unfold contains isFile isDirectory
  cases t.find? p with
  | none => simp
  | some node => cases node <;> simp [Node.isDirectory]

/-! ### Files of a directory -/

/-- The text of a path that is joined with a name has a NUL only if the path has one. -/
theorem zero_not_mem_join (hdir : '\x00' ∉ dir.text.toList) (hname : IsFileName name) :
    '\x00' ∉ (dir.join ⟨name⟩).text.toList := by
  have hzero := hname.no_zero
  unfold Path.join
  rw [if_neg (by simp [Path.isAbsolute_eq_false_of_isName hname.toIsName])]
  split
  · simp [hdir, hzero]
  · simp [hdir, hzero]

/-- A joined path is at least as long as its two parts. -/
theorem le_utf8ByteSize_join (dir : Path) (hname : Path.IsName name) :
    dir.text.utf8ByteSize + name.utf8ByteSize ≤ (dir.join ⟨name⟩).text.utf8ByteSize := by
  unfold Path.join
  rw [if_neg (by simp [Path.isAbsolute_eq_false_of_isName hname])]
  split
  · exact Nat.le_of_eq String.utf8ByteSize_append.symm
  · simp only [String.utf8ByteSize_append]
    omega

/-- A path leads to a place exactly if it has no zero, is absolute and not too long, and the walk along
it succeeds. -/
theorem locate_eq_ok_iff (t : FileTree) (p : Path) (place : List String) :
    t.locate p = .ok place ↔ '\x00' ∉ p.text.toList ∧ p.text.utf8ByteSize ≤ maxPathBytes ∧
      p.isAbsolute = true ∧ t.walk [] p.parts = .ok place := by
  unfold locate
  by_cases hzero : '\x00' ∈ p.text.toList
  · simp [hzero]
  · by_cases hlong : maxPathBytes < p.text.utf8ByteSize
    · simp [hzero, hlong, Nat.not_le.2 hlong]
    · cases habsolute : p.isAbsolute with
      | false => simp [hzero, hlong]
      | true => simp [hzero, hlong, Nat.not_lt.1 hlong]

/-- From the place of a directory a joined path goes on by the name. -/
theorem walk_join_name (hwalk : t.walk [] dir.parts = .ok place) (hname : IsFileName name) :
    t.walk [] (dir.join ⟨name⟩).parts = t.step place name := by
  have hrelative := Path.isAbsolute_eq_false_of_isName hname.toIsName
  obtain ⟨kept, hjoin, hdir⟩ := dir.exists_parts_join hrelative
  -- an empty part at the end of the directory leads nowhere else
  have hkept : t.walk [] kept = .ok place := by
    rcases hdir with h | h
    · rw [← h]
      exact hwalk
    · rw [h, walk_append] at hwalk
      cases hnext : t.walk [] kept with
      | error e =>
        rw [hnext] at hwalk
        cases hwalk
      | ok next =>
        rw [hnext] at hwalk
        have hlast : t.walk next [""] = .ok place := hwalk
        rw [walk_singleton] at hlast
        rw [eq_of_step_empty hlast]
  rw [hjoin, walk_append, hkept, Path.parts_of_no_separator hname.no_separator]
  exact walk_singleton t place name

/-- The path of a directory joined with a name leads to the entry of this name, if there is one and
the path is not too long. -/
theorem locate_join_name {entries : List (String × Node)} (hlocate : t.locate dir = .ok place)
    (hplace : t.node? place = some (.directory entries)) (hname : IsFileName name) :
    t.locate (dir.join ⟨name⟩) =
      if maxPathBytes < (dir.join ⟨name⟩).text.utf8ByteSize then .error .nameTooLong
      else if ((Node.directory entries).child? name).isSome then .ok (place ++ [name])
      else .error .notFound := by
  obtain ⟨hzero, -, habsolute, hwalk⟩ := (t.locate_eq_ok_iff dir place).1 hlocate
  have hjoined : (dir.join ⟨name⟩).isAbsolute = true := by
    rw [Path.isAbsolute_join, habsolute, Bool.true_or]
  unfold locate
  rw [if_neg (by simpa using zero_not_mem_join hzero hname), if_pos hjoined,
    walk_join_name hwalk hname, step_name hname hplace]

/-- A file of a directory is found under its joined path exactly if this path is not too long. -/
theorem isFile_join_name_iff {entries : List (String × Node)} (hlocate : t.locate dir = .ok place)
    (hplace : t.node? place = some (.directory entries)) (hname : IsFileName name) :
    t.isFile (dir.join ⟨name⟩) = true ↔
      (∃ text?, t.node? (place ++ [name]) = some (.file text?)) ∧
        (dir.join ⟨name⟩).text.utf8ByteSize ≤ maxPathBytes := by
  have hnode : t.node? (place ++ [name]) = (Node.directory entries).child? name := by
    rw [node?_concat, hplace, Option.bind_some]
  unfold isFile find?
  rw [locate_join_name hlocate hplace hname]
  by_cases hlong : maxPathBytes < (dir.join ⟨name⟩).text.utf8ByteSize
  · rw [if_pos hlong]
    constructor
    · intro h
      cases h
    · rintro ⟨-, hle⟩
      omega
  · rw [if_neg hlong]
    have hle : (dir.join ⟨name⟩).text.utf8ByteSize ≤ maxPathBytes := by omega
    cases hchild : (Node.directory entries).child? name with
    | none => simp [hnode, hchild]
    | some child =>
      simp only [Option.isSome_some, if_true, hnode, hchild, hle, and_true, Option.some.injEq]
      cases child <;> simp [Node.isDirectory]

/-! ### Separators at the end -/

/-- A separator after the path of a directory leads to the directory, if there is space for it. -/
theorem locate_append_separator {entries : List (String × Node)} (hlocate : t.locate dir = .ok place)
    (hplace : t.node? place = some (.directory entries))
    (hshort : dir.text.utf8ByteSize + 1 ≤ maxPathBytes) :
    t.locate ⟨dir.text ++ "/"⟩ = .ok place := by
  obtain ⟨hzero, -, habsolute, hwalk⟩ := (t.locate_eq_ok_iff dir place).1 hlocate
  have htext : dir.text ++ "/" = String.ofList (dir.text.toList ++ '/' :: []) := by
    rw [← String.toList_inj]
    simp
  have hparts : (Path.mk (dir.text ++ "/")).parts = dir.parts ++ [""] := by
    rw [htext, Path.parts_append_separator, String.ofList_toList]
    rfl
  rw [locate_eq_ok_iff]
  refine ⟨?_, ?_, ?_, ?_⟩
  · simp [hzero]
  · rw [String.utf8ByteSize_append]
    exact hshort
  · unfold Path.isAbsolute at habsolute ⊢
    cases hchars : dir.text.toList with
    | nil => simp [hchars] at habsolute
    | cons c rest =>
      rw [hchars] at habsolute
      simpa [hchars] using habsolute
  · rw [hparts, walk_append, hwalk]
    exact (walk_singleton t place "").trans (step_empty hplace)

/-- The size of a repeated character is that of the character times the repetitions. -/
theorem utf8ByteSize_ofList_replicate (c : Char) (n : Nat) :
    (String.ofList (List.replicate n c)).utf8ByteSize = n * c.utf8Size := by
  induction n with
  | zero => simp
  | succ n ih =>
    have hlast : (String.ofList [c]).utf8ByteSize = c.utf8Size := by
      rw [← String.singleton_eq_ofList]
      exact String.utf8ByteSize_singleton
    rw [List.replicate_succ', String.ofList_append, String.utf8ByteSize_append, ih, hlast,
      Nat.add_one_mul]

/-- Separators at the end of the path of a directory lead nowhere else. -/
theorem locate_append_separators {entries : List (String × Node)} (hlocate : t.locate dir = .ok place)
    (hplace : t.node? place = some (.directory entries)) (n : Nat)
    (hshort : dir.text.utf8ByteSize + n ≤ maxPathBytes) :
    t.locate ⟨dir.text ++ String.ofList (List.replicate n '/')⟩ = .ok place := by
  induction n with
  | zero =>
    have htext : dir.text ++ String.ofList (List.replicate 0 '/') = dir.text := by simp
    rw [htext]
    exact hlocate
  | succ n ih =>
    have hprevious := ih (by omega)
    have htext : dir.text ++ String.ofList (List.replicate (n + 1) '/') =
        dir.text ++ String.ofList (List.replicate n '/') ++ "/" := by
      rw [← String.toList_inj]
      simp [List.replicate_succ']
    have hsize : (String.ofList (List.replicate n '/')).utf8ByteSize = n := by
      rw [utf8ByteSize_ofList_replicate]
      exact Nat.mul_one n
    rw [htext]
    refine locate_append_separator hprevious hplace ?_
    rw [String.utf8ByteSize_append, hsize]
    omega

end FileTree

end Preflight
