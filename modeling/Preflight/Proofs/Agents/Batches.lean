import Preflight.Proofs.Agents.Labels
import Preflight.Proofs.FileTree.Texts
import Preflight.Proofs.Manifest.Scanning

/-!
# What a batch covers

A batch checks each descriptor file of its directory once, in the order of the
names, and stops at none of them. What one file holds decides only what is said
about this file: with another text in it, the batch says the same about all other
files and about the manifest. A file whose joined path is longer than the longest
that is looked up is not seen.
-/

set_option autoImplicit false

namespace Preflight

/-! ### Checks that read no text -/

section

variable {t t' : FileTree} {place : List String} (h : FileTree.DifferInText place t t')

include h

/-- Which files a directory holds does not depend on the text of a file. -/
theorem Inventory.scan_eq (dir : Path) (suffix : String) :
    scan t dir suffix = scan t' dir suffix := by
  unfold scan
  rw [FileTree.readDirectory_eq h]
  simp only [FileTree.isFile_eq h]

/-- A manifest is compared with names and paths only, never with the text of a file. -/
theorem Manifest.crossCheck_eq (m : Manifest) (inventory : Inventory) (root : Path)
    (suffix : String) :
    crossCheck t m inventory root suffix = crossCheck t' m inventory root suffix := by
  have hentry : checkEntry t m root suffix = checkEntry t' m root suffix := by
    funext index entry
    cases entry with
    | string entry =>
      have hexistence :
          existenceIssue? t m root index entry = existenceIssue? t' m root index entry := by
        unfold existenceIssue?
        dsimp only
        rw [FileTree.contains_eq h]
      simp only [checkEntry, hexistence]
    | _ => rfl
  unfold crossCheck checkEntries
  rw [hentry]

/-- The manifest does not depend on the text of a file that is another one. -/
theorem Manifest.load_eq {root : Path} {rules : ManifestRules} {explicit : Option Path}
    (hpath : t.locate (pathIn root rules explicit) ≠ .ok place) :
    load t root rules explicit = load t' root rules explicit := by
  unfold load
  dsimp only
  rw [FileTree.isFile_eq h, FileTree.readText_eq h hpath]

end

namespace Agents

variable {t t' : FileTree} {root : Path} {config : Config} {options : Options}

/-- So its comparison does not depend on the text of another file either. -/
theorem compareManifest_eq {place : List String} (h : FileTree.DifferInText place t t')
    (hpath : t.locate (Manifest.pathIn root config.manifest options.manifest) ≠ .ok place)
    (inventory : Inventory) :
    compareManifest t root config options inventory =
      compareManifest t' root config options inventory := by
  unfold compareManifest manifestNote
  simp only [Manifest.load_eq h hpath, Manifest.crossCheck_eq h, FileTree.isFile_eq h]

/-- A note on the manifest document at a path. -/
structure IsNote (path : Path) (d : Diagnostic) : Prop where
  severity : d.severity = .info
  location : d.location = (Location.ofSource Manifest.source).onPath path

/-- The comparison with a manifest adds at most a note to what is said about the files. -/
theorem exists_note (t : FileTree) (root : Path) (config : Config) (options : Options)
    (inventory : Inventory) :
    ∃ note : Option Diagnostic,
      (∀ d ∈ note, IsNote (Manifest.pathIn root config.manifest options.manifest) d) ∧
      (compareManifest t root config options inventory).2 = .ofOption note := by
  have hclean : ∃ note : Option Diagnostic,
      (∀ d ∈ note, IsNote (Manifest.pathIn root config.manifest options.manifest) d) ∧
      Outcome.clean = .ofOption note := by
    refine ⟨none, ?_, rfl⟩
    intro d hd
    cases hd
  unfold compareManifest
  split
  · exact hclean
  · split
    · unfold manifestNote
      dsimp only
      split
      · refine ⟨some _, ?_, rfl⟩
        intro d hd
        cases hd
        exact ⟨rfl, rfl⟩
      · exact hclean
    · exact hclean
    · exact hclean

/-! ### Runs -/

/-- A run has a result if there is a directory to check, whatever its files hold. -/
theorem exists_run (options : Options)
    (h : t.isDirectory (dirIn root config.agents options) = true) :
    ∃ inventory, Inventory.scan t (dirIn root config.agents options) config.agents.suffix =
        .ok inventory ∧
      run t root config options = .ok ⟨dirIn root config.agents options, inventory.size,
        checkFiles t inventory config.agents ++
          (compareManifest t root config options inventory).2,
        (compareManifest t root config options inventory).1⟩ := by
  obtain ⟨place, entries, hlocate, hnode⟩ := (t.isDirectory_iff _).1 h
  obtain ⟨inventory, hscan⟩ : ∃ inventory,
      Inventory.scan t (dirIn root config.agents options) config.agents.suffix = .ok inventory :=
    ⟨_, (Inventory.scan_eq_ok_iff t _ _ _).2 ⟨place, entries, hlocate, hnode, rfl⟩⟩
  refine ⟨inventory, hscan, ?_⟩
  unfold run
  dsimp only
  rw [if_pos h, hscan]

/-- Without a directory to check, the run ends before any file is read. -/
theorem run_of_not_isDirectory (h : t.isDirectory (dirIn root config.agents options) = false) :
    run t root config options = .error (.descriptorsMissing (dirIn root config.agents options)) := by
  unfold run
  dsimp only
  rw [if_neg (by simp [h])]

/-- A run checks the descriptor files of the directory at a place, which have the names `names`, and
says nothing but what there is to say about each of them, besides at most a note on the manifest. -/
structure Run.Covers (r : Run) (t : FileTree) (dir : Path) (place : List String)
    (rules : AgentRules) (manifest : Path) (names : List String) : Prop where
  sorted : names.Pairwise (· < ·)
  files : ∀ name, name ∈ names ↔
    (∃ text?, t.node? (place ++ [name]) = some (.file text?)) ∧
      rules.suffix.toList <:+ name.toList ∧
      (dir.join ⟨name⟩).text.utf8ByteSize ≤ FileTree.maxPathBytes
  directory : r.dir = dir
  documents : r.documents = names.length
  outcome : ∃ note : Option Diagnostic, (∀ d ∈ note, IsNote manifest d) ∧
    r.outcome.diagnostics =
      (names.flatMap fun name => (checkFile t (dir.join ⟨name⟩) rules).diagnostics) ++ note.toList

/-- Where there is a directory, a run checks the descriptor files in it and has a result. -/
theorem exists_covers (ht : t.WellNamed)
    (hdirectory : t.isDirectory (dirIn root config.agents options) = true) :
    ∃ place r names, t.locate (dirIn root config.agents options) = .ok place ∧
      run t root config options = .ok r ∧
      r.Covers t (dirIn root config.agents options) place config.agents
        (Manifest.pathIn root config.manifest options.manifest) names := by
  obtain ⟨place, entries, hplace, -⟩ := (t.isDirectory_iff _).1 hdirectory
  obtain ⟨inventory, hscan, hrun⟩ := exists_run options hdirectory
  have hdir := Inventory.dir_of_scan hscan
  obtain ⟨note, hnote, heq⟩ := exists_note t root config options inventory
  refine ⟨place, _, inventory.names, hplace, hrun, ?_⟩
  constructor
  · exact inventory.names_sorted
  · exact Inventory.mem_names_scan_iff ht hscan hplace
  · rfl
  · exact inventory.size_eq
  · refine ⟨note, hnote, ?_⟩
    rw [Outcome.diagnostics_append, heq]
    unfold checkFiles Outcome.concat Inventory.pathOf
    rw [List.flatMap_map, hdir]
    rfl

/-! ### Isolation -/

/-- What a run says about everything but the file of the given name. -/
def Run.besides (name : String) (r : Run) : Run :=
  { r with outcome := ⟨r.outcome.diagnostics.filter fun d => d.location.scope != some name⟩ }

/-- What is said about a file is not said about anything else. -/
theorem filter_checkFile_self (t : FileTree) (dir : Path) (rules : AgentRules) {name : String}
    (hname : Path.IsName name) :
    (checkFile t (dir.join ⟨name⟩) rules).diagnostics.filter
      (fun d => d.location.scope != some name) = [] := by
  rw [List.filter_eq_nil_iff]
  intro d hd
  have hscope := (checkFile_within t _ rules d hd).scope name
    (congrArg some (labelOf_join_name dir hname))
  simp [hscope]

/-- What there is to say about a file does not depend on the text of another one. -/
theorem checkFile_eq {place : List String} (h : FileTree.DifferInText place t t') {path : Path}
    (hpath : t.locate path ≠ .ok place) (rules : AgentRules) :
    checkFile t path rules = checkFile t' path rules := by
  unfold checkFile
  rw [FileTree.readText_eq h hpath]

/-- Different names in a directory lead to different places. -/
theorem locate_ne_of_ne {dir : Path} {place : List String} {entries : List (String × Node)}
    (hlocate : t.locate dir = .ok place) (hplace : t.node? place = some (.directory entries))
    {name other : String} (hname : IsFileName name) (hne : name ≠ other) :
    t.locate (dir.join ⟨name⟩) ≠ .ok (place ++ [other]) := by
  rw [FileTree.locate_join_name hlocate hplace hname]
  intro heq
  split at heq
  · cases heq
  · split at heq
    · have hplaces := Except.ok.inj heq
      have hnames := List.append_cancel_left hplaces
      exact hne (List.singleton_inj.1 hnames)
    · cases heq

/-- What is said about any file but the one that differs, or left of it, is the same. -/
theorem filter_checkFile_eq {dir : Path} {place : List String} {entries : List (String × Node)}
    {name other : String} (h : FileTree.DifferInText (place ++ [name]) t t')
    (hlocate : t.locate dir = .ok place) (hplace : t.node? place = some (.directory entries))
    (hother : IsFileName other) (rules : AgentRules) :
    (checkFile t (dir.join ⟨other⟩) rules).diagnostics.filter
        (fun d => d.location.scope != some name) =
      (checkFile t' (dir.join ⟨other⟩) rules).diagnostics.filter
        fun d => d.location.scope != some name := by
  -- nothing is kept of the file itself, and the path of no other file leads to it
  by_cases hne : other = name
  · subst hne
    rw [filter_checkFile_self t dir rules hother.toIsName,
      filter_checkFile_self t' dir rules hother.toIsName]
  · rw [checkFile_eq h (locate_ne_of_ne hlocate hplace hother hne)]

/-- With another text in one file of the directory, the batch says the same about all others. -/
theorem besides_run_eq (ht : t.WellNamed) {place : List String} {name : String}
    (h : FileTree.DifferInText (place ++ [name]) t t')
    (hplace : t.locate (dirIn root config.agents options) = .ok place)
    (hmanifest : t.locate (Manifest.pathIn root config.manifest options.manifest) ≠
      .ok (place ++ [name])) :
    (run t root config options).map (Run.besides name) =
      (run t' root config options).map (Run.besides name) := by
  cases hdirectory : t.isDirectory (dirIn root config.agents options) with
  | false =>
    have hdirectory' := hdirectory
    rw [FileTree.isDirectory_eq h] at hdirectory'
    rw [run_of_not_isDirectory hdirectory, run_of_not_isDirectory hdirectory']
  | true =>
    have hdirectory' := hdirectory
    rw [FileTree.isDirectory_eq h] at hdirectory'
    obtain ⟨inventory, hscan, hrun⟩ := exists_run options hdirectory
    obtain ⟨inventory', hscan', hrun'⟩ := exists_run options hdirectory'
    have hsame : inventory' = inventory := by
      rw [← Inventory.scan_eq h, hscan] at hscan'
      exact (Except.ok.inj hscan').symm
    subst hsame
    obtain ⟨place', entries, hlocate, hnode⟩ := (t.isDirectory_iff _).1 hdirectory
    have heq : place' = place := Except.ok.inj (hlocate.symm.trans hplace)
    subst heq
    have hfiles : ∀ other ∈ inventory'.names,
        (checkFile t (inventory'.pathOf other) config.agents).diagnostics.filter
            (fun d => d.location.scope != some name) =
          (checkFile t' (inventory'.pathOf other) config.agents).diagnostics.filter
            fun d => d.location.scope != some name := by
      intro other hother
      have hisName := Inventory.isFileName_of_scan ht hscan hother
      unfold Inventory.pathOf
      rw [Inventory.dir_of_scan hscan]
      exact filter_checkFile_eq h hlocate hnode hisName config.agents
    rw [hrun, hrun']
    unfold Run.besides checkFiles
    simp only [Except.map, Outcome.diagnostics_append, List.filter_append,
      Outcome.filter_concat_map, compareManifest_eq h hmanifest]
    rw [List.flatMap_congr hfiles]

/-- Skipping the manifest changes neither the documents nor what is said about them, up to the note. -/
theorem exists_run_skipping {r : Run}
    (h : run t root config { options with skipManifest := false } = .ok r) :
    ∃ (r' : Run) (note : Option Diagnostic),
      run t root config { options with skipManifest := true } = .ok r' ∧
      r'.dir = r.dir ∧ r'.documents = r.documents ∧ r'.manifest = none ∧
      (∀ d ∈ note, IsNote (Manifest.pathIn root config.manifest options.manifest) d) ∧
      r.outcome.diagnostics = r'.outcome.diagnostics ++ note.toList := by
  cases hdirectory : t.isDirectory (dirIn root config.agents options) with
  | false =>
    have hrun : run t root config { options with skipManifest := false } =
        .error (.descriptorsMissing (dirIn root config.agents options)) :=
      run_of_not_isDirectory hdirectory
    cases hrun.symm.trans h
  | true =>
    obtain ⟨inventory, hscan, hrun⟩ := exists_run { options with skipManifest := false } hdirectory
    obtain ⟨inventory', hscan', hrun'⟩ := exists_run { options with skipManifest := true } hdirectory
    have hsame : inventory' = inventory := Except.ok.inj (hscan'.symm.trans hscan)
    subst hsame
    obtain ⟨note, hnote, heq⟩ :=
      exists_note t root config { options with skipManifest := false } inventory'
    rw [hrun] at h
    cases h
    refine ⟨_, note, hrun', rfl, rfl, rfl, hnote, ?_⟩
    rw [heq]
    simp [compareManifest, Outcome.ofOption, Outcome.clean]

/-- **What a run says, and what this depends on.** Without a directory a run fails. With one it
covers the descriptor files whose joined paths are not too long, another text in one of them changes
nothing but what is said about it, and without the manifest at most a note is missing. -/
theorem run_covers_and_isolates {t : FileTree} (ht : t.WellNamed) (root : Path) (config : Config)
    (options : Options) :
    (t.isDirectory (dirIn root config.agents options) = false →
      run t root config options =
        .error (.descriptorsMissing (dirIn root config.agents options))) ∧
    (t.isDirectory (dirIn root config.agents options) = true →
      ∃ place r names, t.locate (dirIn root config.agents options) = .ok place ∧
        run t root config options = .ok r ∧
        r.Covers t (dirIn root config.agents options) place config.agents
          (Manifest.pathIn root config.manifest options.manifest) names) ∧
    (∀ place name t', t.locate (dirIn root config.agents options) = .ok place →
      FileTree.DifferInText (place ++ [name]) t t' →
      t.locate (Manifest.pathIn root config.manifest options.manifest) ≠ .ok (place ++ [name]) →
      (run t root config options).map (Run.besides name) =
        (run t' root config options).map (Run.besides name)) ∧
    (∀ r, run t root config { options with skipManifest := false } = .ok r →
      ∃ (r' : Run) (note : Option Diagnostic),
        run t root config { options with skipManifest := true } = .ok r' ∧
        r'.dir = r.dir ∧ r'.documents = r.documents ∧ r'.manifest = none ∧
        (∀ d ∈ note, IsNote (Manifest.pathIn root config.manifest options.manifest) d) ∧
        r.outcome.diagnostics = r'.outcome.diagnostics ++ note.toList) := by
  refine ⟨run_of_not_isDirectory, exists_covers ht, ?_, fun r => exists_run_skipping⟩
  intro place name t' hplace hdiffer hmanifest
  exact besides_run_eq ht hdiffer hplace hmanifest

/-! ### A file that is not seen -/

/-- A name than which none is longer. -/
def longName : String :=
  String.ofList (List.replicate 252 'a') ++ ".md"

/-- A directory with two descriptors, one of which has a long name. -/
def longNamed : FileTree :=
  ⟨[("@T", .directory [("a.md", .file (some "x")), (longName, .file (some "x"))])]⟩

/-- The name is as long as a name may be. -/
theorem utf8ByteSize_longName : longName.utf8ByteSize = 255 := by
  unfold longName
  rw [String.utf8ByteSize_append, FileTree.utf8ByteSize_ofList_replicate]
  rfl

/-- Nothing but its length is special about the name. -/
theorem isFileName_longName : IsFileName longName := by
  have hchars : longName.toList = List.replicate 252 'a' ++ ['.', 'm', 'd'] := by
    unfold longName
    rw [String.toList_append, String.toList_ofList]
    rfl
  have hlength : longName.toList.length = 255 := by
    rw [hchars, List.length_append, List.length_replicate]
    rfl
  have hmem : ∀ c, c ≠ 'a' → c ∉ ['.', 'm', 'd'] → c ∉ longName.toList := by
    intro c hletter hsuffix hc
    rw [hchars, List.mem_append, List.mem_replicate] at hc
    rcases hc with ⟨-, h⟩ | h
    · exact hletter h
    · exact hsuffix h
  have hne : ∀ text : String, text.toList.length < 255 → longName ≠ text := by
    intro text hshort heq
    rw [heq] at hlength
    omega
  refine ⟨⟨hne "" (by decide), hne "." (by decide), hne ".." (by decide), ?_⟩, ?_, ?_⟩
  · exact hmem '/' (by decide) (by decide)
  · exact hmem '\x00' (by decide) (by decide)
  · rw [utf8ByteSize_longName]
    exact le_refl 255

/-- The tree with the long name is as a file system may be. -/
theorem wellNamed_longNamed : longNamed.WellNamed := by
  refine .directory (by decide) ?_
  intro e he
  rw [List.mem_singleton.1 he]
  refine .directory ?_ ?_
  · intro e he
    rcases List.mem_pair.1 he with rfl | rfl
    · decide
    · exact isFileName_longName
  · intro e he
    rcases List.mem_pair.1 he with rfl | rfl
    · exact .file _
    · exact .file _

/-- A directory whose first descriptor loses its text. -/
theorem run_covers_and_isolates_of_longNamed :
    longNamed.WellNamed ∧
      (∃ (r : Run) (names : List String),
        run longNamed ⟨"/@T"⟩ .default ⟨some ⟨"."⟩, none, false⟩ = .ok r ∧
          r.documents = names.length ∧ "a.md" ∈ names) ∧
      (run longNamed ⟨"/@T"⟩ .default ⟨some ⟨"."⟩, none, false⟩).map (Run.besides "a.md") =
        (run (longNamed.put ["@T", "a.md"] (.file none)) ⟨"/@T"⟩ .default
          ⟨some ⟨"."⟩, none, false⟩).map (Run.besides "a.md") := by
  obtain ⟨-, hcovers, hisolates, -⟩ :=
    run_covers_and_isolates wellNamed_longNamed ⟨"/@T"⟩ .default ⟨some ⟨"."⟩, none, false⟩
  have hplace : longNamed.locate (dirIn ⟨"/@T"⟩ Config.default.agents ⟨some ⟨"."⟩, none, false⟩) =
      .ok ["@T"] := by decide +kernel
  have hfile : longNamed.node? (["@T"] ++ ["a.md"]) = some (.file (some "x")) := by rfl
  refine ⟨wellNamed_longNamed, ?_, ?_⟩
  · obtain ⟨place, r, names, hlocate, hrun, h⟩ := hcovers (by decide +kernel)
    have heq : place = ["@T"] := Except.ok.inj (hlocate.symm.trans hplace)
    subst heq
    have hmem := (h.files "a.md").2 ⟨⟨some "x", hfile⟩, by decide +kernel, by decide +kernel⟩
    exact ⟨r, names, hrun, h.documents, hmem⟩
  · exact hisolates ["@T"] "a.md" _ hplace (FileTree.differInText_put hfile none) (by decide +kernel)

/-- The directory of the project itself, written as a long path. -/
def farOptions : Options :=
  ⟨some ⟨"." ++ String.ofList (List.replicate 3900 '/')⟩, none, true⟩

/-- The directory is spelled with as many separators as its path can bear. -/
theorem dirIn_farOptions :
    dirIn ⟨"/@T"⟩ Config.default.agents farOptions =
      ⟨"/@T/." ++ String.ofList (List.replicate 3900 '/')⟩ := by
  have hjoin : ∀ n, Path.join ⟨"/@T"⟩ ⟨"." ++ String.ofList (List.replicate n '/')⟩ =
      ⟨"/@T/." ++ String.ofList (List.replicate n '/')⟩ := by
    intro n
    unfold Path.join
    rw [if_neg (by simp [Path.isAbsolute]), if_neg (by decide +kernel)]
    congr 1
  exact hjoin 3900

/-- The many separators lead to the directory itself. -/
theorem locate_farOptions :
    longNamed.locate (dirIn ⟨"/@T"⟩ Config.default.agents farOptions) = .ok ["@T"] := by
  rw [dirIn_farOptions]
  have hlocate : longNamed.locate ⟨"/@T/."⟩ = .ok ["@T"] := by decide +kernel
  exact FileTree.locate_append_separators hlocate rfl 3900 (by decide +kernel)

/-- Together with the long name the path of the directory is too long to be looked up. -/
theorem lt_utf8ByteSize_join_longName :
    FileTree.maxPathBytes <
      ((dirIn ⟨"/@T"⟩ Config.default.agents farOptions).join ⟨longName⟩).text.utf8ByteSize := by
  have hjoin := FileTree.le_utf8ByteSize_join (dirIn ⟨"/@T"⟩ Config.default.agents farOptions)
    isFileName_longName.toIsName
  have hdir :
      (dirIn ⟨"/@T"⟩ Config.default.agents farOptions).text.utf8ByteSize = 3905 := by
    rw [dirIn_farOptions, String.utf8ByteSize_append, FileTree.utf8ByteSize_ofList_replicate]
    rfl
  rw [hdir, utf8ByteSize_longName] at hjoin
  unfold FileTree.maxPathBytes
  omega

/-- Of two descriptors the one whose joined path is too long is left out. -/
theorem run_of_longNamed_farOptions :
    longNamed.WellNamed ∧
      (∀ name ∈ ["a.md", longName],
        longNamed.node? (["@T"] ++ [name]) = some (.file (some "x")) ∧
          Config.default.agents.suffix.toList <:+ name.toList) ∧
      longNamed.locate (dirIn ⟨"/@T"⟩ Config.default.agents farOptions) = .ok ["@T"] ∧
      ∃ r, run longNamed ⟨"/@T"⟩ .default farOptions = .ok r ∧ r.documents ≤ 1 := by
  have hne : "a.md" ≠ longName := by
    intro heq
    have hsize := utf8ByteSize_longName
    rw [← heq] at hsize
    exact absurd hsize (by decide)
  have hchild : ∀ name, longNamed.node? (["@T"] ++ [name]) =
      if name = "a.md" ∨ name = longName then some (.file (some "x")) else none := by
    intro name
    have hroot : longNamed.node? ["@T"] =
        some (.directory [("a.md", .file (some "x")), (longName, .file (some "x"))]) := rfl
    rw [FileTree.node?_concat, hroot, Option.bind_some]
    unfold Node.child? Node.entries
    by_cases hshort : name = "a.md"
    · simp [hshort]
    · by_cases hlong : name = longName
      · simp [hlong, hne]
      · simp [hshort, hlong, Ne.symm hshort, Ne.symm hlong]
  refine ⟨wellNamed_longNamed, ?_, locate_farOptions, ?_⟩
  · intro name hname
    refine ⟨by rw [hchild, if_pos (List.mem_pair.1 hname)], ?_⟩
    rcases List.mem_pair.1 hname with rfl | rfl
    · exact ⟨['a'], rfl⟩
    · have hsuffix : Config.default.agents.suffix = ".md" := rfl
      unfold longName
      rw [hsuffix, String.toList_append]
      exact List.suffix_append _ _
  · have hdirectory :
        longNamed.isDirectory (dirIn ⟨"/@T"⟩ Config.default.agents farOptions) = true :=
      (longNamed.isDirectory_iff _).2 ⟨["@T"], _, locate_farOptions, rfl⟩
    obtain ⟨place, r, names, hlocate, hrun, hcovers⟩ := exists_covers wellNamed_longNamed hdirectory
    have heq : place = ["@T"] := Except.ok.inj (hlocate.symm.trans locate_farOptions)
    subst heq
    refine ⟨r, hrun, ?_⟩
    have hnames : names ⊆ ["a.md"] := by
      intro name hname
      obtain ⟨⟨text?, hnode⟩, -, hshort⟩ := (hcovers.files name).1 hname
      rw [hchild] at hnode
      split at hnode
      · rename_i hone
        rcases hone with rfl | rfl
        · exact List.mem_singleton_self _
        · have hlong := lt_utf8ByteSize_join_longName
          omega
      · cases hnode
    have hnodup : names.Nodup := hcovers.sorted.imp fun hlt => ne_of_lt hlt
    rw [hcovers.documents]
    exact (List.subperm_of_subset hnodup hnames).length_le

end Agents

end Preflight
