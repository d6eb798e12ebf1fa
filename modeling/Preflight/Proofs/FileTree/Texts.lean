import Mathlib.Data.List.Sort
import Mathlib.Data.String.Basic
import Preflight.Proofs.FileTree.Names

/-!
# File trees that differ in the text of one file

Trees with the same directories and files lead every path to the same place, so all
look-ups but reading give the same answer. If besides only one file has another
text, reading gives another answer only where a path leads to this file
(`readText_eq`). Writing a file makes such a difference
(`differInText_put`).
-/

set_option autoImplicit false

namespace Preflight

namespace Node

/-- The names in a directory; a file has no list of names. -/
def names? : Node → Option (List String)
  | .file _ => none
  | .directory entries => some (Node.directory entries).names

/-- The text of a file, if it has one. -/
def text? : Node → Option String
  | .file text? => text?
  | .directory _ => none

end Node

namespace FileTree

/-- Trees with the same directories and files, of which only the file at one place may have another
text. -/
structure DifferInText (place : List String) (t t' : FileTree) : Prop where
  names : ∀ q, (t.node? q).map Node.names? = (t'.node? q).map Node.names?
  text : ∀ q, q ≠ place → (t.node? q).bind Node.text? = (t'.node? q).bind Node.text?

variable {place : List String} {t t' : FileTree}

section

variable (h : DifferInText place t t')

include h

/-- A step leads to the same place in trees that differ in a text alone. -/
theorem step_eq (q : List String) (part : String) : t.step q part = t'.step q part := by
  have hnames := h.names q
  unfold step
  cases hnode : t.node? q with
  | none =>
    rw [hnode, Option.map_none] at hnames
    have hnode' : t'.node? q = none := Option.map_eq_none_iff.1 hnames.symm
    simp only [hnode']
  | some node =>
    obtain ⟨node', hnode', heq⟩ : ∃ node', t'.node? q = some node' ∧ node'.names? = node.names? := by
      rw [hnode, Option.map_some, eq_comm, Option.map_eq_some_iff] at hnames
      exact hnames
    cases node with
    | file text? =>
      cases node' with
      | file text?' => simp only [hnode']
      | directory entries' => cases heq
    | directory entries =>
      cases node' with
      | file text?' => cases heq
      | directory entries' =>
        have hsame : (Node.directory entries').names = (Node.directory entries).names :=
          Option.some.inj heq
        have hchild : ∀ name, ((Node.directory entries).child? name).isSome =
            ((Node.directory entries').child? name).isSome := by
          intro name
          rw [Bool.eq_iff_iff, ← Node.mem_names_iff, ← Node.mem_names_iff, hsame]
        simp only [hnode', hchild]

/-- A walk leads to the same place in trees that differ in a text alone. -/
theorem walk_eq (q parts : List String) : t.walk q parts = t'.walk q parts := by
  have hstep : t.step = t'.step := by
    funext q part
    exact step_eq h q part
  unfold walk
  rw [hstep]

/-- A path leads to the same place in trees that differ in a text alone. -/
theorem locate_eq (p : Path) : t.locate p = t'.locate p := by
  unfold locate
  rw [walk_eq h]

/-- What a path leads to has the same names in trees that differ in a text alone. -/
theorem map_names?_find? (p : Path) : (t.find? p).map Node.names? = (t'.find? p).map Node.names? := by
  unfold find?
  rw [locate_eq h]
  cases t'.locate p with
  | error e => rfl
  | ok q => exact h.names q

/-- The same paths lead to something in trees that differ in a text alone. -/
theorem contains_eq (p : Path) : t.contains p = t'.contains p := by
  have hisSome := congrArg Option.isSome (map_names?_find? h p)
  unfold contains
  simpa only [Option.isSome_map] using hisSome

/-- The same paths lead to directories in trees that differ in a text alone. -/
theorem isDirectory_eq (p : Path) : t.isDirectory p = t'.isDirectory p := by
  have hdirectory : ∀ u : FileTree, u.isDirectory p =
      ((u.find? p).map Node.names?).any Option.isSome := by
    intro u
    unfold isDirectory
    rw [Option.any_map]
    congr 1
    funext node
    cases node <;> rfl
  rw [hdirectory, hdirectory, map_names?_find? h]

/-- The same paths lead to files in trees that differ in a text alone. -/
theorem isFile_eq (p : Path) : t.isFile p = t'.isFile p := by
  have hfile : ∀ u : FileTree, u.isFile p =
      ((u.find? p).map Node.names?).any Option.isNone := by
    intro u
    unfold isFile
    rw [Option.any_map]
    congr 1
    funext node
    cases node <;> rfl
  rw [hfile, hfile, map_names?_find? h]

/-- Directories are listed alike in trees that differ in a text alone. -/
theorem readDirectory_eq (p : Path) : t.readDirectory p = t'.readDirectory p := by
  have hread : ∀ u : FileTree, u.readDirectory p =
      u.locate p >>= fun q =>
        match (u.node? q).map Node.names? with
        | none => .error .notFound
        | some none => .error .notDirectory
        | some (some names) => .ok names := by
    intro u
    unfold readDirectory
    cases u.locate p with
    | error e => rfl
    | ok q =>
      cases hnode : u.node? q with
      | none => simp [bind, Except.bind, hnode]
      | some node => cases node <;> simp [bind, Except.bind, hnode, Node.names?]
  rw [hread, hread, locate_eq h]
  congr 1
  funext q
  rw [h.names q]

/-- Paths that do not lead to the file that differs are read alike. -/
theorem readText_eq {p : Path} (hp : t.locate p ≠ .ok place) : t.readText p = t'.readText p := by
  unfold readText
  rw [← locate_eq h]
  cases hlocate : t.locate p with
  | error e => rfl
  | ok q =>
    have hne : q ≠ place := by
      intro heq
      exact hp (by rw [hlocate, heq])
    have htext := h.text q hne
    have hnames := h.names q
    cases hnode : t.node? q with
    | none =>
      rw [hnode, Option.map_none] at hnames
      have hnode' : t'.node? q = none := Option.map_eq_none_iff.1 hnames.symm
      simp only [hnode, hnode']
    | some node =>
      cases hnode' : t'.node? q with
      | none => simp [hnode, hnode'] at hnames
      | some node' =>
        rw [hnode, hnode'] at htext hnames
        cases node <;> cases node' <;> simp_all [Node.names?, Node.text?]

end

end FileTree

/-! ### Writing a file -/

namespace Node

/-- An entry in front of the others, from which its name is removed, replaces the child of that name. -/
theorem child?_directory_cons (name other : String) (node : Node) (entries : List (String × Node)) :
    (directory ((name, node) :: entries.filter (·.1 != name))).child? other =
      if other = name then some node else (directory entries).child? other := by
  unfold child? Node.entries
  by_cases heq : other = name
  · subst heq
    rw [if_pos rfl, List.find?_cons, beq_self_eq_true]
    rfl
  · have hne : (name == other) = false := beq_eq_false_iff_ne.2 (Ne.symm heq)
    have hfilter : (entries.filter (·.1 != name)).find? (·.1 == other) =
        entries.find? (·.1 == other) := by
      rw [List.find?_filter]
      congr 1
      funext e
      by_cases he : e.1 = other
      · simp [he, heq]
      · simp [he]
    rw [if_neg heq, List.find?_cons, hne]
    exact congrArg (Option.map Prod.snd) hfilter

/-- Nodes with children of the same names have the same names. -/
theorem names_eq_of_child? {n m : Node}
    (h : ∀ name, (n.child? name).isSome = (m.child? name).isSome) : n.names = m.names := by
  have hmem : ∀ name, name ∈ n.names ↔ name ∈ m.names := by
    intro name
    rw [mem_names_iff, mem_names_iff, h name]
  exact (Table.keys_sorted _).eq_of_mem_iff (Table.keys_sorted _) hmem

/-- Writing a file changes neither the directories nor which files there are, and no other text. -/
theorem descend?_put {place : List String} {n : Node} {old new : Option String}
    (h : n.descend? place = some (.file old)) (q : List String) :
    ((put (.file new) place n).descend? q).map names? = (n.descend? q).map names? ∧
      (q ≠ place → ((put (.file new) place n).descend? q).bind text? = (n.descend? q).bind text?) := by
  -- below the file there is nothing before or after, and beside the path nothing is touched
  induction place generalizing n q with
  | nil =>
    rw [descend?, Option.some.injEq] at h
    subst h
    cases q with
    | nil => exact ⟨rfl, fun hne => (hne rfl).elim⟩
    | cons name q => exact ⟨rfl, fun _ => rfl⟩
  | cons name rest ih =>
    rw [descend?] at h
    obtain ⟨child, hchild, hrest⟩ := Option.bind_eq_some_iff.1 h
    cases n with
    | file text? => cases hchild
    | directory entries =>
      have hold : (entries.find? (·.1 == name)).map Prod.snd = some child := hchild
      have hput : put (.file new) (name :: rest) (.directory entries) =
          .directory ((name, put (.file new) rest child) :: entries.filter (·.1 != name)) := by
        rw [put, hold, Option.getD_some]
      rw [hput]
      cases q with
      | nil =>
        refine ⟨?_, fun _ => rfl⟩
        have hnames := names_eq_of_child? (n := directory ((name, put (.file new) rest child) ::
            entries.filter (·.1 != name))) (m := directory entries) (by
          intro other
          rw [child?_directory_cons]
          by_cases heq : other = name
          · rw [if_pos heq, heq, hchild]
            rfl
          · rw [if_neg heq])
        simp only [descend?, Option.map_some, names?, hnames]
      | cons other q =>
        rw [descend?, descend?, child?_directory_cons]
        by_cases heq : other = name
        · subst heq
          rw [if_pos rfl, hchild, Option.bind_some, Option.bind_some]
          obtain ⟨hnames, htext⟩ := ih hrest q
          refine ⟨hnames, fun hne => htext ?_⟩
          intro hq
          exact hne (by rw [hq])
        · rw [if_neg heq]
          exact ⟨rfl, fun _ => rfl⟩

end Node

/-- Writing a file makes a tree that differs in its text only. -/
theorem FileTree.differInText_put {t : FileTree} {place : List String} {old : Option String}
    (h : t.node? place = some (.file old)) (new : Option String) :
    DifferInText place t (t.put place (.file new)) := by
  have hroot : (t.put place (.file new)).root = Node.put (.file new) place t.root := by
    cases place with
    | nil => cases h
    | cons name rest => rfl
  constructor
  · intro q
    unfold node?
    rw [hroot]
    exact (Node.descend?_put h q).1.symm
  · intro q hq
    unfold node?
    rw [hroot]
    exact ((Node.descend?_put h q).2 hq).symm

end Preflight
