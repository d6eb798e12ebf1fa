import Preflight.Path.Resolver
import Preflight.Proofs.Path.Expansion
import Preflight.Proofs.Path.Steps

/-!
# What spellings of a path resolve to

A path in the project may be written after any placeholder for the root of the
project, after a single dot, or as it is: all three resolve to the same path
(`resolve_projectSpellings`).

The home directory takes the place of a `~` before placeholders are replaced, so that
placeholders in its own text are replaced too. But none reaches over the separator
after it, and so it is inserted as it is exactly if `~` alone means the home directory
(`resolve_homeSpelling`).
-/

set_option autoImplicit false

namespace Preflight.Resolver

open Preflight.Text

variable {r : Resolver}

/-! ### Single steps -/

/-- A path without a tilde at its start does not name the home directory. -/
theorem expandHome_of_head?_ne {text : String} (h : text.toList.head? ≠ some '~') :
    r.expandHome text = text := by
  unfold expandHome
  cases r.home? with
  | none => rfl
  | some home =>
    cases htext : text.toList with
    | nil => rfl
    | cons c rest =>
      have hc : c ≠ '~' := by
        rintro rfl
        exact h (by rw [htext, List.head?_cons])
      simp [hc]

/-- A tilde alone is the home directory. -/
theorem expandHome_tilde {home : Path} (h : r.home? = some home) : r.expandHome "~" = home.text := by
  simp [expandHome, h]

/-- A tilde before a separator is the home directory. -/
theorem expandHome_tilde_slash {home : Path} (h : r.home? = some home) (rest : String) :
    r.expandHome ("~/" ++ rest) = home.text ++ "/" ++ rest := by
  simp [expandHome, h]

/-- The variables of the parts of a path are expanded on their own. -/
theorem expandVariables_append_slash (s t : String) :
    r.expandVariables (s ++ "/" ++ t) = r.expandVariables s ++ "/" ++ r.expandVariables t := by
  have htext : (s ++ "/" ++ t).toList = s.toList ++ '/' :: t.toList := by simp
  rw [← String.toList_inj]
  simp only [expandVariables, htext, Placeholder.expand_append_separator, String.toList_append,
    String.toList_ofList]
  simp

/-- What stands on the two sides of a separator is expanded on its own. -/
theorem normalizeSeparators_expandVariables_append_slash (s t : String) :
    normalizeSeparators (r.expandVariables (s ++ "/" ++ t)) =
      normalizeSeparators (r.expandVariables s) ++ "/" ++
        normalizeSeparators (r.expandVariables t) := by
  have hslash : normalizeSeparators "/" = "/" := by decide
  rw [expandVariables_append_slash, normalizeSeparators_append, normalizeSeparators_append, hslash]

/-- A placeholder alone is expanded to its value, or kept as it stands. -/
theorem expandVariables_placeholder {p : Placeholder}
    (hname : identifier? p.name = some (p.name, [])) :
    r.expandVariables (String.ofList p.text) =
      (r.lookup (String.ofList p.name)).getD (String.ofList p.text) := by
  unfold expandVariables
  rw [String.toList_ofList, Placeholder.expand_text _ hname]
  cases r.lookup (String.ofList p.name) with
  | none => rfl
  | some value => exact String.ofList_toList

/-- There is nothing to expand in the empty text. -/
theorem expandVariables_empty : r.expandVariables "" = "" := by
  unfold expandVariables
  rw [String.toList_empty, Placeholder.expand]

/-- There is nothing to expand in a dot. -/
theorem expandVariables_dot : r.expandVariables "." = "." := by
  have hnone : Placeholder.ofText? ['.'] = none := rfl
  unfold expandVariables
  rw [show ".".toList = ['.'] from rfl, Placeholder.expand_cons_of_eq_none _ hnone,
    Placeholder.expand]

/-- A path is resolved by expanding it, joining it with the base and cleaning it. -/
theorem resolve_eq (r : Resolver) (text : String) :
    r.resolve text =
      (r.base.join ⟨normalizeSeparators (r.expandVariables (r.expandHome text))⟩).clean := rfl

/-- Without a `~` at its start a text means what its expansion means in the project. -/
theorem resolve_of_head?_ne {text : String} (h : text.toList.head? ≠ some '~') :
    r.resolve text = (r.base.join ⟨normalizeSeparators (r.expandVariables text)⟩).clean := by
  rw [resolve_eq, expandHome_of_head?_ne h]

/-! ### Paths in the project -/

/-- The resolvers that the variables of an environment give, without a home directory or with one. -/
def IsOfVariables (base : Path) (vars : Table String) (r : Resolver) : Prop :=
  r = ofVariables base vars ∨ ∃ home, r = (ofVariables base vars).withHome home

/-- The resolver of variables has their base. -/
theorem IsOfVariables.base_eq {base : Path} {vars : Table String} (h : IsOfVariables base vars r) :
    r.base = base := by
  rcases h with rfl | ⟨home, rfl⟩
  · rfl
  · rfl

/-- Where no variable names the root of the project, the one for it does. -/
theorem IsOfVariables.lookup_projectVariable {base : Path} {vars : Table String}
    (h : IsOfVariables base vars r) (hvars : vars.find? projectVariable = none) :
    r.lookup projectVariable = some base.text := by
  have hcontains : vars.contains projectVariable = false := by
    rw [Table.contains, hvars]
    rfl
  have hfind : (ofVariables base vars).vars.find? projectVariable = some base.text := by
    simp [ofVariables, hcontains, Table.find?_insert]
  rcases h with rfl | ⟨home, rfl⟩
  · rw [lookup, hfind]
  · rw [lookup, withHome, hfind]

/-- The placeholder for the root of the project in one of the spellings. -/
def projectPlaceholder (spelling : Placeholder.Spelling) : Placeholder :=
  ⟨spelling, projectVariable.toList⟩

section

variable {p : String}

/-- A relative path means the same after a single dot. -/
theorem resolve_dot_slash (htilde : p.toList.head? ≠ some '~')
    (hrelative : (Path.mk (normalizeSeparators (r.expandVariables p))).isAbsolute = false) :
    r.resolve ("./" ++ p) = r.resolve p := by
  have hexpand : normalizeSeparators (r.expandVariables ("." ++ "/" ++ p)) =
      "." ++ "/" ++ normalizeSeparators (r.expandVariables p) := by
    rw [normalizeSeparators_expandVariables_append_slash, expandVariables_dot,
      show normalizeSeparators "." = "." by decide]
  rw [resolve_of_head?_ne htilde, show "./" ++ p = "." ++ "/" ++ p from rfl,
    resolve_of_head?_ne (by simp), hexpand]
  apply Path.clean_join_congr
  · rw [hrelative]
    simp [Path.isAbsolute]
  · rw [Path.steps_append_slash, show (Path.mk ".").steps = [] from Path.steps_dot, List.nil_append]

/-- A relative path means the same after a placeholder for a variable that holds the root of the
project. -/
theorem resolve_placeholder_slash {placeholder : Placeholder}
    (hname : identifier? placeholder.name = some (placeholder.name, []))
    (hvalue : r.lookup (String.ofList placeholder.name) = some r.base.text)
    (habsolute : r.base.isAbsolute = true) (hbackslash : '\\' ∉ r.base.text.toList)
    (htilde : p.toList.head? ≠ some '~')
    (hrelative : (Path.mk (normalizeSeparators (r.expandVariables p))).isAbsolute = false) :
    r.resolve (String.ofList placeholder.text ++ "/" ++ p) = r.resolve p := by
  have htext : (String.ofList placeholder.text ++ "/" ++ p).toList.head? ≠ some '~' := by
    obtain ⟨spelling, name⟩ := placeholder
    cases spelling with
    | _ => simp [Placeholder.text]
  have hexpand : normalizeSeparators
      (r.expandVariables (String.ofList placeholder.text ++ "/" ++ p)) =
        r.base.text ++ "/" ++ normalizeSeparators (r.expandVariables p) := by
    rw [normalizeSeparators_expandVariables_append_slash, expandVariables_placeholder hname, hvalue,
      Option.getD_some, normalizeSeparators_eq_self hbackslash]
  rw [resolve_of_head?_ne htext, resolve_of_head?_ne htilde, hexpand]
  have hjoined := Path.isAbsolute_append (Path.isAbsolute_append habsolute "/")
    (normalizeSeparators (r.expandVariables p))
  apply Path.clean_eq_clean
  · rw [Path.isAbsolute_join, Path.isAbsolute_join, habsolute, Bool.true_or, Bool.true_or]
  · rw [Path.join_of_isAbsolute r.base hjoined, Path.steps_append_slash,
      Path.steps_join r.base hrelative]

end

example : [.bare, .braced, .percent].map (fun spelling => String.ofList (projectPlaceholder spelling).text) =
    ["$CLAUDE_PROJECT_DIR", "$\x7bCLAUDE_PROJECT_DIR\x7d", "%CLAUDE_PROJECT_DIR%"] := by decide

/-- An absolute path stays absolute when its variables are expanded. -/
theorem isAbsolute_expanded {text : String} (h : (Path.mk text).isAbsolute = true) :
    (Path.mk (normalizeSeparators (r.expandVariables text))).isAbsolute = true := by
  have hhead : text.toList.head? = some '/' := by simpa [Path.isAbsolute] using h
  obtain ⟨rest, hrest⟩ := List.head?_eq_some_iff.1 hhead
  have hexpand : text = "" ++ "/" ++ String.ofList rest := by
    rw [← String.toList_inj]
    simp [hrest]
  rw [hexpand, normalizeSeparators_expandVariables_append_slash, expandVariables_empty]
  exact Path.isAbsolute_append (by decide) _

/-- A tilde alone resolves to the home directory, cleaned. -/
theorem resolve_tilde {home : Path} (hhome : r.home? = some home)
    (habsolute : home.isAbsolute = true) :
    r.resolve "~" = (Path.mk (normalizeSeparators (r.expandVariables home.text))).clean := by
  rw [resolve_eq, expandHome_tilde hhome, Path.join_of_isAbsolute _ (isAbsolute_expanded habsolute)]

/-- The text of the home directory is expanded on its own. -/
theorem resolve_tilde_slash {home : Path} (hhome : r.home? = some home)
    (habsolute : home.isAbsolute = true) (rest : String) :
    r.resolve ("~/" ++ rest) =
      (Path.mk (normalizeSeparators (r.expandVariables home.text) ++ "/" ++
        normalizeSeparators (r.expandVariables rest))).clean := by
  have hjoined := Path.isAbsolute_append
    (Path.isAbsolute_append (isAbsolute_expanded (r := r) habsolute) "/")
    (normalizeSeparators (r.expandVariables rest))
  rw [resolve_eq, expandHome_tilde_slash hhome, normalizeSeparators_expandVariables_append_slash,
    Path.join_of_isAbsolute _ hjoined]

/-- **The home directory in a path.** Placeholders in the text of the home directory are replaced,
but none reaches into what follows. So the home directory is inserted as it is exactly if `~` alone
resolves to it; this is so if its text holds no placeholder that has a value of its own. -/
theorem resolve_homeSpelling {home : Path} (hhome : r.home? = some home)
    (habsolute : home.isAbsolute = true) (hbackslash : '\\' ∉ home.text.toList) :
    (∀ rest, r.resolve ("~/" ++ rest) =
      (Path.mk (normalizeSeparators (r.expandVariables home.text) ++ "/" ++
        normalizeSeparators (r.expandVariables rest))).clean) ∧
    ((∀ rest, r.resolve ("~/" ++ rest) =
      (Path.mk (home.text ++ "/" ++ normalizeSeparators (r.expandVariables rest))).clean) ↔
        r.resolve "~" = home.clean) ∧
    (r.expandVariables home.text = home.text → r.resolve "~" = home.clean) := by
  have hexpanded := isAbsolute_expanded (r := r) habsolute
  have hrest := resolve_tilde_slash hhome habsolute
  rw [resolve_tilde hhome habsolute]
  refine ⟨hrest, ⟨?_, ?_⟩, ?_⟩
  · intro hliteral
    have hends := (hrest "").symm.trans (hliteral "")
    rwa [expandVariables_empty, show normalizeSeparators "" = "" from rfl,
      Path.clean_append_slash_empty hexpanded, Path.clean_append_slash_empty habsolute] at hends
  · intro hclean rest
    rw [hrest]
    exact Path.clean_append_slash_congr hexpanded habsolute hclean _
  · intro hsame
    rw [hsame, normalizeSeparators_eq_self hbackslash]

/-- A home directory that is named like a placeholder for a variable without a value is inserted as
it is. -/
theorem resolve_homeSpelling_of_unknown :
    let r : Resolver := ⟨⟨"/w"⟩, some ⟨"/h/$Y"⟩, .ofList [("X", "y")]⟩
    r.home? = some ⟨"/h/$Y"⟩ ∧ (Path.mk "/h/$Y").isAbsolute = true ∧ '\\' ∉ "/h/$Y".toList ∧
      r.expandVariables "/h/$Y" = "/h/$Y" ∧
      ∀ rest, r.resolve ("~/" ++ rest) =
        (Path.mk ("/h/$Y" ++ "/" ++ normalizeSeparators (r.expandVariables rest))).clean := by
  intro r
  have hhome : r.home? = some ⟨"/h/$Y"⟩ := rfl
  have hsame : r.expandVariables "/h/$Y" = "/h/$Y" := by decide +kernel
  have hspelling := resolve_homeSpelling hhome (by decide) (by decide)
  exact ⟨hhome, by decide, by decide, hsame, hspelling.2.1.2 (hspelling.2.2 hsame)⟩

/-- A home directory that is named like a placeholder for a variable with a value is not inserted as
it is. -/
theorem resolve_homeSpelling_of_value :
    let r : Resolver := ⟨⟨"/w"⟩, some ⟨"/h/$X"⟩, .ofList [("X", "y")]⟩
    r.home? = some ⟨"/h/$X"⟩ ∧ (Path.mk "/h/$X").isAbsolute = true ∧ '\\' ∉ "/h/$X".toList ∧
      r.resolve ("~/" ++ "a") = ⟨"/h/y/a"⟩ ∧
      r.resolve ("~/" ++ "a") ≠
        (Path.mk ("/h/$X" ++ "/" ++ normalizeSeparators (r.expandVariables "a"))).clean := by
  decide +kernel

end Preflight.Resolver
