import Preflight.Proofs.CommandLine.Lines
import Preflight.Proofs.Failing

/-!
# Reading options before and after a command

Options are read one at a time, each with the argument that is its value, and what
is read of them does not depend on what follows them (`readOptions_append`). The
commands differ in the options that they know, but not in how they read those that
all of them know (`readOptions_flags`). So the same options around the names of two
commands are read as the same request, up to the task (`ofArguments_command`).
-/

set_option autoImplicit false

namespace Preflight.CommandLine

/-! ### One option after the other -/

/-- An option that is accepted is added at the end of those given. -/
theorem give_eq_ok {given given' : Given} {flag : Flag} {value : String}
    (h : give given flag value = .ok given') : given' = given ++ [(flag, value)] := by
  unfold give at h
  split at h
  · cases h
  · split at h
    · cases h
    · split at h
      · cases h
      · split at h
        · cases h
        · exact (Except.ok.inj h).symm

/-- Options that have all been read are read in the same way if arguments follow. -/
theorem readOptions_append {known : List Flag} {given given' : Given} {options : List String}
    (h : readOptions known given options = .ok (given', [])) (hend : "--" ∉ options)
    (rest : List String) :
    readOptions known given (options ++ rest) = readOptions known given' rest := by
  fun_induction readOptions known given options with
  | case1 given =>
    cases h
    rfl
  | case2 given argument hargument =>
    have hend' : argument = "--" := String.toList_inj.1 hargument
    exact absurd (List.mem_singleton.2 hend'.symm) hend
  | case5 given argument option hne hargument name flag hfind hvalue value options hsplit ih =>
    obtain ⟨given₁, hgive, hread⟩ := exists_of_bind_eq_ok h
    have htail := ih given₁ hread fun hmem => hend (List.mem_cons_of_mem _ hmem)
    rw [List.cons_append, readOptions.eq_def]
    simp only [hargument, hsplit, hfind, hvalue, hgive, if_true]
    exact htail
  | case6 given argument option hne hargument name flag hfind hvalue value options hcan hsplit ih =>
    obtain ⟨given₁, hgive, hread⟩ := exists_of_bind_eq_ok h
    have htail := ih given₁ hread fun hmem =>
      hend (List.mem_cons_of_mem _ (List.mem_cons_of_mem _ hmem))
    rw [List.cons_append, List.cons_append, readOptions.eq_def]
    simp only [hargument, hsplit, hfind, hvalue, hcan, hgive, if_true]
    exact htail
  | case10 given argument options option hne hargument name attached hsplit flag hfind hvalue hnone ih =>
    obtain ⟨given₁, hgive, hread⟩ := exists_of_bind_eq_ok h
    have htail := ih given₁ hread fun hmem => hend (List.mem_cons_of_mem _ hmem)
    rw [List.cons_append, readOptions.eq_def]
    simp only [hargument, hsplit, hfind, hvalue, hnone, hgive]
    exact htail
  | case11 given argument options c letters hne hne' hargument ih =>
    obtain ⟨given₁, hgive, hread⟩ := exists_of_bind_eq_ok h
    have htail := ih given₁ hread fun hmem => hend (List.mem_cons_of_mem _ hmem)
    rw [List.cons_append, readOptions.eq_def]
    simp only [hargument, hgive]
    exact htail
  | _ => cases h

/-- An argument that is not a hyphen with something behind it is no option. -/
theorem readOptions_name (known : List Flag) (given : Given) {name : String} (rest : List String)
    (hname : ∀ c letters, name.toList ≠ '-' :: c :: letters) :
    readOptions known given (name :: rest) = .ok (given, name :: rest) := by
  rw [readOptions.eq_def]
  dsimp only
  split
  · rename_i hchars
    exact absurd hchars (hname _ _)
  · rename_i hchars
    exact absurd hchars (hname _ _)
  · rename_i hchars
    exact absurd hchars (hname _ _)
  · rfl

/-! ### The options that are read are known -/

/-- An accepted option that the command knows leaves only options that it knows. -/
theorem flag_mem_of_give {known : List Flag} {given given' : Given} {flag : Flag} {value : String}
    (hgiven : ∀ option ∈ given, option.1 ∈ known) (hflag : flag ∈ known)
    (h : give given flag value = .ok given') : ∀ option ∈ given', option.1 ∈ known := by
  rw [give_eq_ok h]
  intro option hoption
  rcases List.mem_append.1 hoption with hold | hnew
  · exact hgiven option hold
  · rw [List.mem_singleton.1 hnew]
    exact hflag

/-- Short options that are read in one argument are all known to the command. -/
theorem flag_mem_of_readLetters {known : List Flag} {argument : String} {given given' : Given}
    {letters : List Char} (hgiven : ∀ option ∈ given, option.1 ∈ known)
    (h : readLetters known argument given letters = .ok given') :
    ∀ option ∈ given', option.1 ∈ known := by
  induction letters generalizing given with
  | nil =>
    cases h
    exact hgiven
  | cons c letters ih =>
    rw [readLetters] at h
    split at h
    · cases h
    · rename_i flag hfind
      obtain ⟨given₁, hgive, hread⟩ := exists_of_bind_eq_ok h
      apply ih ?_ hread
      exact flag_mem_of_give hgiven (List.mem_of_find?_eq_some hfind) hgive

/-- All options that are read are known to the command. -/
theorem flag_mem_of_readOptions {known : List Flag} {given given' : Given}
    {arguments rest : List String} (hgiven : ∀ option ∈ given, option.1 ∈ known)
    (h : readOptions known given arguments = .ok (given', rest)) :
    ∀ option ∈ given', option.1 ∈ known := by
  fun_induction readOptions known given arguments with
  | case1 | case2 | case12 =>
    cases h
    exact hgiven
  | case5 given argument option hne hargument name flag hfind hvalue value options hsplit ih =>
    obtain ⟨given₁, hgive, hread⟩ := exists_of_bind_eq_ok h
    exact ih given₁ (flag_mem_of_give hgiven (List.mem_of_find?_eq_some hfind) hgive) hread
  | case6 given argument option hne hargument name flag hfind hvalue value options hcan hsplit ih =>
    obtain ⟨given₁, hgive, hread⟩ := exists_of_bind_eq_ok h
    exact ih given₁ (flag_mem_of_give hgiven (List.mem_of_find?_eq_some hfind) hgive) hread
  | case10 given argument options option hne hargument name attached hsplit flag hfind hvalue hnone ih =>
    obtain ⟨given₁, hgive, hread⟩ := exists_of_bind_eq_ok h
    exact ih given₁ (flag_mem_of_give hgiven (List.mem_of_find?_eq_some hfind) hgive) hread
  | case11 given argument options c letters hne hne' hargument ih =>
    obtain ⟨given₁, hletters, hread⟩ := exists_of_bind_eq_ok h
    exact ih given₁ (flag_mem_of_readLetters hgiven hletters) hread
  | _ => cases h

/-! ### Options of one command -/

/-- The options that only one command knows. -/
def Flag.switches : List Flag := [.dir, .manifest, .noManifest, .globally, .inProject]

/-- Whether an argument is an option that only one command knows. -/
def isSwitch (argument : String) : Bool :=
  match argument.toList with
  | '-' :: '-' :: option => Flag.switches.any (·.name == (splitOption option).1)
  | _ => false

/-- A search that no switch satisfies finds the same among the options of a command and the shared ones.
-/
theorem find?_flags (command : CommandName) {p : Flag → Bool}
    (hp : ∀ flag ∈ Flag.switches, p flag = false) :
    command.flags.find? p = Flag.shared.find? p := by
  have hdir := hp .dir (by decide)
  have hmanifest := hp .manifest (by decide)
  have hno := hp .noManifest (by decide)
  have hglobally := hp .globally (by decide)
  have hproject := hp .inProject (by decide)
  cases command with
  | agents => simp [CommandName.flags, List.find?_append, hdir, hmanifest, hno]
  | hooks => simp [CommandName.flags, List.find?_append, hglobally, hproject]
  | all => rfl
  | config => rfl

/-- No switch has a short form, so short options are read alike by every command. -/
theorem readLetters_flags (command : CommandName) (argument : String) (given : Given)
    (letters : List Char) :
    readLetters command.flags argument given letters =
      readLetters Flag.shared argument given letters := by
  have hletter : ∀ flag ∈ Flag.switches, flag.letter? = none := by decide
  induction letters generalizing given with
  | nil => rfl
  | cons c letters ih =>
    have hfind := find?_flags command (p := fun flag => flag.letter? == some c) (by
      intro flag hflag
      rw [hletter flag hflag]
      rfl)
    simp only [readLetters, hfind, ih]

/-- An argument that is no switch names the same option for every command. -/
theorem find?_name_flags (command : CommandName) {argument name : String} {option : List Char}
    {attached : Option String} (hargument : argument.toList = '-' :: '-' :: option)
    (hsplit : splitOption option = (name, attached)) (h : isSwitch argument = false) :
    command.flags.find? (·.name == name) = Flag.shared.find? (·.name == name) := by
  apply find?_flags
  simpa [isSwitch, hargument, hsplit] using h

/-- Commands read arguments in the same way if no option of one command is among them. -/
theorem readOptions_flags (command : CommandName) (given : Given) {arguments : List String}
    (h : ∀ argument ∈ arguments, isSwitch argument = false) :
    readOptions command.flags given arguments = readOptions Flag.shared given arguments := by
  fun_induction readOptions Flag.shared given arguments with
  | case1 => rfl
  | case2 given argument hargument =>
    rw [readOptions.eq_def]
    simp only [hargument]
  | case3 given argument hargument next rest =>
    rw [readOptions.eq_def]
    simp only [hargument]
  | case4 given argument rest option hne hargument name attached hsplit hfind =>
    have hflags := find?_name_flags command hargument hsplit (h argument (List.mem_cons_self ..))
    rw [readOptions.eq_def]
    simp only [hargument, hsplit, hflags, hfind]
  | case5 given argument option hne hargument name flag hfind hvalue value rest hsplit ih =>
    have hflags := find?_name_flags command hargument hsplit (h argument (List.mem_cons_self ..))
    have htail := fun given => ih given fun a ha => h a (List.mem_cons_of_mem _ ha)
    rw [readOptions.eq_def]
    simp only [hargument, hsplit, hflags, hfind, hvalue, if_true, htail]
  | case6 given argument option hne hargument name flag hfind hvalue value rest hcan hsplit ih =>
    have hflags := find?_name_flags command hargument hsplit (h argument (List.mem_cons_self ..))
    have htail := fun given => ih given fun a ha =>
      h a (List.mem_cons_of_mem _ (List.mem_cons_of_mem _ ha))
    rw [readOptions.eq_def]
    simp only [hargument, hsplit, hflags, hfind, hvalue, hcan, if_true, htail]
  | case7 given argument option hne hargument name flag hfind hvalue value rest hcan hsplit =>
    have hflags := find?_name_flags command hargument hsplit (h argument (List.mem_cons_self ..))
    rw [readOptions.eq_def]
    simp only [hargument, hsplit, hflags, hfind, hvalue, hcan, if_true]
    rfl
  | case8 given argument option hne hargument name flag hfind hvalue hsplit =>
    have hflags := find?_name_flags command hargument hsplit (h argument (List.mem_cons_self ..))
    rw [readOptions.eq_def]
    simp only [hargument, hsplit, hflags, hfind, hvalue, if_true]
  | case9 given argument rest option hne hargument name attached hsplit flag hfind hvalue hsome =>
    have hflags := find?_name_flags command hargument hsplit (h argument (List.mem_cons_self ..))
    rw [readOptions.eq_def]
    simp only [hargument, hsplit, hflags, hfind, hvalue, hsome, if_true]
    rfl
  | case10 given argument rest option hne hargument name attached hsplit flag hfind hvalue hnone ih =>
    have hflags := find?_name_flags command hargument hsplit (h argument (List.mem_cons_self ..))
    have htail := fun given => ih given fun a ha => h a (List.mem_cons_of_mem _ ha)
    rw [readOptions.eq_def]
    simp only [hargument, hsplit, hflags, hfind, hvalue, hnone, htail]
    rfl
  | case11 given argument rest c letters hne hne' hargument ih =>
    have htail := fun given => ih given fun a ha => h a (List.mem_cons_of_mem _ ha)
    rw [readOptions.eq_def]
    simp only [hargument, readLetters_flags, htail]
  | case12 given argument rest hends hlong hshort =>
    rw [readOptions_name _ _ _ hshort]

/-! ### Options around the name of a command -/

/-- What the arguments after the name of a command give, if no option of one command is among them. -/
def readShared (arguments : List String) : Except Stop Given := do
  match ← readOptions Flag.shared [] arguments with
  | (_, argument :: _) => .error (.usage (.unexpectedArgument argument))
  | (given, []) => return given

/-- The task of a command without options of its own. -/
def CommandName.task : CommandName → Task
  | .agents => .agents .default
  | .hooks => .hooks .all
  | .all => .all
  | .config => .config

/-- Arguments that are options of every command, and with them their values. -/
structure AreOptions (arguments : List String) (given : Given) : Prop where
  read : readOptions (Flag.shared ++ [.version]) [] arguments = .ok (given, [])
  open_end : "--" ∉ arguments

/-- The name of a command does not look like an option. -/
theorem ne_hyphen_of_ofText? {name : String} {command : CommandName}
    (h : CommandName.ofText? name = some command) (c : Char) (letters : List Char) :
    name.toList ≠ '-' :: c :: letters := by
  intro hchars
  unfold CommandName.ofText? at h
  split at h <;> simp at hchars h

/-- An option is not given if no given option has its flag. -/
theorem Given.has_eq_false {given : Given} {flag : Flag} (h : ∀ option ∈ given, option.1 ≠ flag) :
    given.has flag = false := by
  unfold has
  rw [List.any_eq_false]
  intro option hoption
  simpa using h option hoption

/-- An option names no path if no given option has its flag. -/
theorem Given.path?_eq_none {given : Given} {flag : Flag} (h : ∀ option ∈ given, option.1 ≠ flag) :
    given.path? flag = none := by
  have hfind : given.find? (·.1 == flag) = none := by
    rw [List.find?_eq_none]
    intro option hoption
    simpa using h option hoption
  simp only [path?, value?, hfind, Option.map_none]

/-- With shared options alone a command performs its default task. -/
theorem Task.ofGiven_shared (command : CommandName) {given : Given}
    (h : ∀ option ∈ given, option.1 ∈ Flag.shared) :
    Task.ofGiven command given = .ok command.task := by
  have hne : ∀ flag ∈ Flag.switches, ∀ option ∈ given, option.1 ≠ flag := by
    have hdisjoint : ∀ flag ∈ Flag.switches, flag ∉ Flag.shared := by decide
    intro flag hflag option hoption heq
    exact hdisjoint flag hflag (heq ▸ h option hoption)
  unfold ofGiven
  cases command with
  | agents =>
    rw [Given.has_eq_false (hne .manifest (by decide)), Given.has_eq_false (hne .noManifest (by decide)),
      Given.path?_eq_none (hne .dir (by decide)), Given.path?_eq_none (hne .manifest (by decide))]
    rfl
  | hooks =>
    rw [Given.has_eq_false (hne .globally (by decide)), Given.has_eq_false (hne .inProject (by decide))]
    rfl
  | all => rfl
  | config => rfl

/-- Options around the name of a command mean the same for every command, but for the task. -/
theorem ofArguments_command {options rest : List String} {before : Given} {name : String}
    {command : CommandName} (hoptions : AreOptions options before)
    (hname : CommandName.ofText? name = some command)
    (hrest : ∀ argument ∈ rest, isSwitch argument = false) :
    Request.ofArguments (options ++ name :: rest) =
      (readShared rest).map fun after => Request.ofGiven before after command.task := by
  have hbefore : readOptions (Flag.shared ++ [.version]) [] (options ++ name :: rest) =
      .ok (before, name :: rest) := by
    rw [readOptions_append hoptions.read hoptions.open_end]
    exact readOptions_name _ _ _ (ne_hyphen_of_ofText? hname)
  unfold Request.ofArguments readShared
  rw [hbefore]
  simp only [bind, Except.bind, hname, readOptions_flags command [] hrest]
  cases hread : readOptions Flag.shared [] rest with
  | error stop => rfl
  | ok read =>
    obtain ⟨after, others⟩ := read
    cases others with
    | nil =>
      have hflags : ∀ option ∈ after, option.1 ∈ Flag.shared :=
        flag_mem_of_readOptions (by simp) hread
      simp only [Task.ofGiven_shared command hflags]
      rfl
    | cons argument others => rfl

end Preflight.CommandLine
