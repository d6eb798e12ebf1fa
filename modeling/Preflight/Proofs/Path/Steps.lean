import Preflight.Path.Basic
import Preflight.Proofs.Text.Joined

/-!
# Steps of joined and cleaned paths

The steps of a path that is joined to another one come after those of the other
(`steps_join`), and cleaning folds the steps up and does nothing else
(`steps_clean`). So of a cleaned path only the folded steps count and whether it
starts at the root (`clean_eq_clean`).

Folding works on a stack, from which a step up takes only what is on top. So where
steps are folded onto two different stacks, whatever they add is the same on both,
and the last step of the result can differ only if they add nothing
(`getLast?_foldSteps_append`).
-/

set_option autoImplicit false

namespace Preflight.Path

/-! ### Parts -/

/-- A text that can be the name of an entry: one part of a path that is a step into something. -/
structure IsName (name : String) : Prop where
  ne_empty : name ≠ ""
  ne_dot : name ≠ "."
  ne_dots : name ≠ ".."
  no_separator : '/' ∉ name.toList

instance (name : String) : Decidable (IsName name) :=
  decidable_of_iff (name ≠ "" ∧ name ≠ "." ∧ name ≠ ".." ∧ '/' ∉ name.toList)
    ⟨fun ⟨h₁, h₂, h₃, h₄⟩ => ⟨h₁, h₂, h₃, h₄⟩,
      fun h => ⟨h.ne_empty, h.ne_dot, h.ne_dots, h.no_separator⟩⟩

/-- No part of a path has a separator in it. -/
theorem separator_not_mem_of_mem_splitOn {s part : List Char} (h : part ∈ s.splitOn '/') :
    '/' ∉ part := by
  rw [List.splitOn_eq_splitOnP] at h
  intro hmem
  exact absurd (Text.not_of_mem_splitOnP h '/' hmem) (by decide)

/-- The parts of two texts with a separator between them are those of the one and then those of the
other. -/
theorem parts_append_separator (s t : List Char) :
    (Path.mk (String.ofList (s ++ '/' :: t))).parts =
      (Path.mk (String.ofList s)).parts ++ (Path.mk (String.ofList t)).parts := by
  simp only [parts, String.toList_ofList, List.splitOn_append_cons_self, List.map_append]

/-- A text without a separator is its own part. -/
theorem parts_of_no_separator {text : String} (h : '/' ∉ text.toList) :
    (Path.mk text).parts = [text] := by
  simp only [parts, List.splitOn_eq_singleton h, List.map_cons, List.map_nil, String.ofList_toList]

/-- A dot takes no step. -/
theorem steps_dot : (Path.mk (String.ofList ['.'])).steps = [] := by
  unfold steps
  rw [parts_of_no_separator (by simp)]
  rfl

/-- The steps of two texts with a separator between them are those of the one and then those of the
other. -/
theorem steps_append_separator (s t : List Char) :
    (Path.mk (String.ofList (s ++ '/' :: t))).steps =
      (Path.mk (String.ofList s)).steps ++ (Path.mk (String.ofList t)).steps := by
  simp only [steps, parts_append_separator, List.filterMap_append]

/-- No name is absolute. -/
theorem isAbsolute_eq_false_of_isName {name : String} (h : IsName name) :
    (Path.mk name).isAbsolute = false := by
  unfold isAbsolute
  cases hname : name.toList with
  | nil => rfl
  | cons c rest =>
    have hc : c ≠ '/' := by
      intro heq
      exact h.no_separator (by rw [hname, heq]; exact List.mem_cons_self)
    simpa using hc

/-- A name is a step into what it names. -/
theorem ofPart?_of_isName {name : String} (h : IsName name) :
    Step.ofPart? name = some (.into name) := by
  unfold Step.ofPart?
  rw [if_neg (by simp [h.ne_empty, h.ne_dot]), if_neg h.ne_dots]

/-! ### Last steps -/

/-- A text ends with a part without separators, which is all of it or follows a separator. -/
theorem exists_last_part (s : List Char) :
    ∃ last, '/' ∉ last ∧ (s = last ∨ ∃ before, s = before ++ '/' :: last) := by
  induction s with
  | nil => exact ⟨[], List.not_mem_nil, .inl rfl⟩
  | cons c s ih =>
    obtain ⟨last, hlast, rfl | ⟨before, rfl⟩⟩ := ih
    · by_cases hc : c = '/'
      · exact ⟨s, hlast, .inr ⟨[], by rw [hc, List.nil_append]⟩⟩
      · exact ⟨c :: s, List.not_mem_cons_of_ne_of_not_mem (Ne.symm hc) hlast, .inl rfl⟩
    · exact ⟨last, hlast, .inr ⟨c :: before, rfl⟩⟩

/-- A part of a path that ends with a name is a name. -/
theorem IsName.of_suffix {suffix part : String} (h : IsName suffix)
    (hsuffix : suffix.toList <:+ part.toList) (hseparator : '/' ∉ part.toList) : IsName part := by
  have hne : suffix.toList ≠ [] := fun hnil => h.ne_empty (String.toList_eq_nil_iff.1 hnil)
  have hdot : suffix.toList ≠ ['.'] := fun heq => h.ne_dot (String.toList_inj.1 heq)
  have hdots : suffix.toList ≠ ['.', '.'] := fun heq => h.ne_dots (String.toList_inj.1 heq)
  refine ⟨?_, ?_, ?_, hseparator⟩
  · rintro rfl
    exact hne (List.suffix_nil.1 hsuffix)
  · rintro rfl
    have hcases : suffix.toList <:+ ['.'] := hsuffix
    simp [List.suffix_cons_iff, hne, hdot] at hcases
  · rintro rfl
    have hcases : suffix.toList <:+ ['.', '.'] := hsuffix
    simp [List.suffix_cons_iff, hne, hdot, hdots] at hcases

/-- A path that ends with a name goes into something whose name ends so. -/
theorem exists_last_step {suffix : String} (h : IsName suffix) (s : List Char) :
    ∃ before name, (Path.mk (String.ofList (s ++ suffix.toList))).steps = before ++ [.into name] ∧
      suffix.toList <:+ name.toList := by
  have hname : ∀ last : List Char, '/' ∉ last →
      (Path.mk (String.ofList (last ++ suffix.toList))).steps =
        [.into (String.ofList (last ++ suffix.toList))] ∧
      suffix.toList <:+ (String.ofList (last ++ suffix.toList)).toList := by
    intro last hlast
    have hseparator : '/' ∉ (String.ofList (last ++ suffix.toList)).toList := by
      simp [hlast, h.no_separator]
    have hsuffix : suffix.toList <:+ (String.ofList (last ++ suffix.toList)).toList := by
      rw [String.toList_ofList]
      exact List.suffix_append last suffix.toList
    have hpart := h.of_suffix hsuffix hseparator
    rw [steps, parts_of_no_separator hseparator, List.filterMap_cons, ofPart?_of_isName hpart]
    exact ⟨rfl, hsuffix⟩
  obtain ⟨last, hlast, rfl | ⟨before, rfl⟩⟩ := exists_last_part s
  · exact ⟨[], _, (hname s hlast).1, (hname s hlast).2⟩
  · refine ⟨(Path.mk (String.ofList before)).steps, _, ?_, (hname last hlast).2⟩
    rw [List.append_assoc, List.cons_append, steps_append_separator, (hname last hlast).1]

/-! ### Joined paths -/

/-- Joining an absolute path forgets the first one. -/
theorem join_of_isAbsolute (p : Path) {q : Path} (h : q.isAbsolute = true) : p.join q = q := by
  rw [join, if_pos h]

/-- A relative path that is joined keeps its parts, and the parts before them are those of the path
that it is joined to, up to an empty one at the end. -/
theorem exists_parts_join (p : Path) {q : Path} (hq : q.isAbsolute = false) :
    ∃ kept, (p.join q).parts = kept ++ q.parts ∧ (p.parts = kept ∨ p.parts = kept ++ [""]) := by
  unfold join
  rw [if_neg (by simp [hq])]
  by_cases hempty : p.text = ""
  · refine ⟨[], ?_, .inr ?_⟩
    · simp [hempty]
    · have hnone : '/' ∉ p.text.toList := by simp [hempty]
      rw [List.nil_append]
      exact hempty ▸ parts_of_no_separator hnone
  · rcases List.eq_nil_or_concat p.text.toList with hnil | ⟨s, c, hlast⟩
    · exact absurd (String.toList_eq_nil_iff.1 hnil) hempty
    · rw [List.concat_eq_append] at hlast
      have htext : p.text = String.ofList (s ++ [c]) := by rw [← hlast, String.ofList_toList]
      by_cases hc : c = '/'
      · subst hc
        rw [if_pos (by simp [hlast])]
        refine ⟨(Path.mk (String.ofList s)).parts, ?_, .inr ?_⟩
        · have hjoined : p.text ++ q.text = String.ofList (s ++ '/' :: q.text.toList) := by
            rw [htext, ← String.toList_inj]
            simp
          rw [hjoined, parts_append_separator, String.ofList_toList]
        · have hparts := parts_append_separator s []
          rw [show (Path.mk (String.ofList [])).parts = [""] from rfl, ← htext] at hparts
          exact hparts
      · rw [if_neg (by simp [hlast, hempty, hc])]
        refine ⟨p.parts, ?_, .inl rfl⟩
        have hjoined : p.text ++ "/" ++ q.text = String.ofList (p.text.toList ++ '/' :: q.text.toList) := by
          rw [← String.toList_inj]
          simp
        rw [hjoined, parts_append_separator, String.ofList_toList, String.ofList_toList]

/-- The steps of joined paths are those of the one and then those of the other. -/
theorem steps_join (p : Path) {q : Path} (hq : q.isAbsolute = false) :
    (p.join q).steps = p.steps ++ q.steps := by
  obtain ⟨kept, hjoin, hp⟩ := p.exists_parts_join hq
  have hempty : [""].filterMap Step.ofPart? = [] := by decide
  unfold steps
  rw [hjoin, List.filterMap_append]
  rcases hp with h | h
  · rw [h]
  · rw [h, List.filterMap_append, hempty, List.append_nil]

/-- A longer text of an absolute path is absolute. -/
theorem isAbsolute_append {s : String} (h : (Path.mk s).isAbsolute = true) (t : String) :
    (Path.mk (s ++ t)).isAbsolute = true := by
  unfold isAbsolute at h ⊢
  cases hs : s.toList with
  | nil => simp [hs] at h
  | cons c rest => simpa [hs] using h

/-- A joined path starts at the root if one of the two does. -/
theorem isAbsolute_join (p q : Path) : (p.join q).isAbsolute = (p.isAbsolute || q.isAbsolute) := by
  unfold join
  cases hq : q.isAbsolute with
  | true =>
    rw [if_pos rfl, hq]
    exact (Bool.or_true _).symm
  | false =>
    rw [if_neg (by decide), Bool.or_false]
    unfold isAbsolute at hq ⊢
    cases hp : p.text.toList with
    | nil => simp [String.toList_eq_nil_iff.1 hp, hq]
    | cons c rest =>
      split
      · simp [hp]
      · simp [hp]

/-- What is written after a separator has its steps after those of what is written before it. -/
theorem steps_append_slash (s t : String) :
    (Path.mk (s ++ "/" ++ t)).steps = (Path.mk s).steps ++ (Path.mk t).steps := by
  have htext : s ++ "/" ++ t = String.ofList (s.toList ++ '/' :: t.toList) := by
    rw [← String.toList_inj]
    simp
  rw [htext, steps_append_separator, String.ofList_toList, String.ofList_toList]

/-- Joining a name adds the step into it. -/
theorem steps_join_name (p : Path) {name : String} (h : IsName name) :
    (p.join ⟨name⟩).steps = p.steps ++ [.into name] := by
  rw [steps_join p (isAbsolute_eq_false_of_isName h), steps, steps,
    parts_of_no_separator h.no_separator, List.filterMap_cons, ofPart?_of_isName h]
  rfl

/-! ### Cleaned paths -/

/-- A step that a path can have: up, or into a name. -/
def Step.IsProper : Step → Prop
  | .up => True
  | .into name => IsName name

/-- The steps that are read from a path are proper. -/
theorem isProper_of_mem_steps {p : Path} {s : Step} (h : s ∈ p.steps) : s.IsProper := by
  obtain ⟨part, hpart, hs⟩ := List.mem_filterMap.1 h
  obtain ⟨chars, hchars, rfl⟩ := List.mem_map.1 hpart
  have hsep : '/' ∉ (String.ofList chars).toList := by
    rw [String.toList_ofList]
    exact separator_not_mem_of_mem_splitOn hchars
  unfold Step.ofPart? at hs
  split at hs
  · cases hs
  · rename_i hdot
    rw [not_or] at hdot
    split at hs
    · cases hs
      trivial
    · rename_i hdots
      cases hs
      exact ⟨hdot.1, hdot.2, hdots, hsep⟩

/-- A proper step is read from its text. -/
theorem Step.IsProper.ofPart?_text {s : Step} (h : s.IsProper) : Step.ofPart? s.text = some s := by
  cases s with
  | up => rfl
  | into name => exact ofPart?_of_isName h

/-- The text of a proper step has no separator. -/
theorem Step.IsProper.separator_not_mem {s : Step} (h : s.IsProper) : '/' ∉ s.text.toList := by
  cases s with
  | up => decide
  | into name => exact h.no_separator

/-- Proper steps are read from their texts. -/
theorem filterMap_text {ss : List Step} (h : ∀ s ∈ ss, s.IsProper) :
    (ss.map Step.text).filterMap Step.ofPart? = ss := by
  induction ss with
  | nil => rfl
  | cons s ss ih =>
    have hs := (h s List.mem_cons_self).ofPart?_text
    have hrest := ih fun r hr => h r (List.mem_cons_of_mem _ hr)
    rw [List.map_cons, List.filterMap_cons, hs]
    exact congrArg (s :: ·) hrest

/-- Steps that are written one after the other are its parts. -/
theorem parts_intercalate {ss : List Step} (hne : ss ≠ []) (h : ∀ s ∈ ss, s.IsProper) :
    (Path.mk ("/".intercalate (ss.map Step.text))).parts = ss.map Step.text := by
  have hchars : ("/".intercalate (ss.map Step.text)).toList.splitOn '/' =
      (ss.map Step.text).map String.toList := by
    rw [String.toList_intercalate]
    refine List.splitOn_intercalate '/' ?_ (by simpa using hne)
    intro l hl
    obtain ⟨text, htext, rfl⟩ := List.mem_map.1 hl
    obtain ⟨r, hr, rfl⟩ := List.mem_map.1 htext
    exact (h r hr).separator_not_mem
  unfold parts
  rw [hchars, List.map_map]
  refine (List.map_congr_left ?_).trans (List.map_id _)
  intro text _
  exact String.ofList_toList

/-- A separator at the start adds an empty part. -/
theorem parts_separator_append (text : String) :
    (Path.mk ("/" ++ text)).parts = "" :: (Path.mk text).parts := by
  have htext : "/" ++ text = String.ofList ([] ++ '/' :: text.toList) := by
    rw [← String.toList_inj]
    simp
  rw [htext, parts_append_separator, String.ofList_toList]
  rfl

/-- Steps that are written as a path are its steps. -/
theorem steps_ofSteps (absolute : Bool) {ss : List Step} (h : ∀ s ∈ ss, s.IsProper) :
    (ofSteps absolute ss).steps = ss := by
  have hrelative : (Path.mk ("/".intercalate (ss.map Step.text))).steps = ss := by
    by_cases hne : ss = []
    · subst hne
      rfl
    · unfold steps
      rw [parts_intercalate hne h]
      exact filterMap_text h
  cases absolute with
  | false => simpa [ofSteps] using hrelative
  | true =>
    have hempty : Step.ofPart? "" = none := by decide
    unfold ofSteps steps at *
    rw [if_pos rfl, parts_separator_append, List.filterMap_cons_none hempty]
    exact hrelative

/-- An absolute path starts with a separator. -/
theorem exists_of_isAbsolute {p : Path} (h : p.isAbsolute = true) :
    ∃ text, p = ⟨"/" ++ text⟩ := by
  have hhead : p.text.toList.head? = some '/' := by simpa [isAbsolute] using h
  obtain ⟨rest, hrest⟩ := List.head?_eq_some_iff.1 hhead
  have htext : p.text = "/" ++ String.ofList rest := by
    rw [← String.toList_inj]
    simp [hrest]
  exact ⟨String.ofList rest, congrArg Path.mk htext⟩

/-- Steps that are written as a relative path do not start at the root. -/
theorem isAbsolute_ofSteps (absolute : Bool) {ss : List Step} (h : ∀ s ∈ ss, s.IsProper) :
    (ofSteps absolute ss).isAbsolute = absolute := by
  cases absolute with
  | true => simp [ofSteps, isAbsolute]
  | false =>
    by_cases hne : ss = []
    · subst hne
      rfl
    · have hparts := parts_intercalate hne h
      obtain ⟨s, rest, rfl⟩ := List.exists_cons_of_ne_nil hne
      have hpart := (h s List.mem_cons_self).ofPart?_text
      rw [Bool.eq_false_iff]
      intro habsolute
      -- then the first part would be empty, and an empty part is no step
      obtain ⟨text, htext⟩ := exists_of_isAbsolute habsolute
      have hfirst : "" :: (Path.mk text).parts = (s :: rest).map Step.text := by
        rw [← parts_separator_append, ← htext, ← hparts]
        simp [ofSteps]
      rw [← (List.cons.inj hfirst).1] at hpart
      cases hpart

/-- Pushing a proper step keeps all steps of a stack proper. -/
theorem isProper_push {stack : List Step} {s : Step} (hstack : ∀ r ∈ stack, r.IsProper)
    (hs : s.IsProper) : ∀ r ∈ push stack s, r.IsProper := by
  intro r hr
  cases s with
  | up =>
    cases stack with
    | nil =>
      rw [List.mem_singleton.1 hr]
      trivial
    | cons top stack => exact hstack r (List.mem_cons_of_mem _ hr)
  | into name =>
    have hcons : push stack (.into name) = .into name :: stack := by cases stack <;> rfl
    rw [hcons] at hr
    rcases List.mem_cons.1 hr with rfl | hr
    · exact hs
    · exact hstack r hr

/-- Pushing proper steps keeps all steps of a stack proper. -/
theorem isProper_foldl_push {ss stack : List Step} (hss : ∀ s ∈ ss, s.IsProper)
    (hstack : ∀ r ∈ stack, r.IsProper) : ∀ r ∈ ss.foldl push stack, r.IsProper := by
  induction ss generalizing stack with
  | nil => exact hstack
  | cons s ss ih =>
    have hstep := isProper_push hstack (hss s List.mem_cons_self)
    exact ih (fun r hr => hss r (List.mem_cons_of_mem _ hr)) hstep

/-- The folded steps of a path are proper. -/
theorem isProper_of_mem_foldSteps {p : Path} {s : Step} (h : s ∈ foldSteps p.steps) :
    s.IsProper := by
  rw [foldSteps, List.mem_reverse] at h
  exact isProper_foldl_push (fun r hr => isProper_of_mem_steps hr) (by simp) s h

/-- Cleaning a path folds its steps. -/
theorem steps_clean (p : Path) : p.clean.steps = foldSteps p.steps :=
  steps_ofSteps p.isAbsolute fun _ hs => isProper_of_mem_foldSteps hs

/-- Paths with the same steps, once folded, that both start at the root or both do not are cleaned
alike. -/
theorem clean_eq_clean {p q : Path} (habsolute : p.isAbsolute = q.isAbsolute)
    (hsteps : foldSteps p.steps = foldSteps q.steps) : p.clean = q.clean := by
  unfold clean
  rw [habsolute, hsteps]

/-- Cleaning neither makes a path absolute nor keeps it from being so. -/
theorem isAbsolute_clean_eq (p : Path) : p.clean.isAbsolute = p.isAbsolute :=
  isAbsolute_ofSteps p.isAbsolute fun _ hs => isProper_of_mem_foldSteps hs

/-- A cleaned absolute path is absolute. -/
theorem isAbsolute_clean {p : Path} (h : p.isAbsolute = true) : p.clean.isAbsolute = true :=
  (isAbsolute_clean_eq p).trans h

/-- Of a path that is joined only its steps and where it starts count. -/
theorem clean_join_congr (p : Path) {q q' : Path} (habsolute : q.isAbsolute = q'.isAbsolute)
    (hsteps : q.steps = q'.steps) : (p.join q).clean = (p.join q').clean := by
  apply clean_eq_clean
  · rw [isAbsolute_join, isAbsolute_join, habsolute]
  · cases hq' : q'.isAbsolute with
    | true =>
      rw [hq'] at habsolute
      rw [join_of_isAbsolute p habsolute, join_of_isAbsolute p hq', hsteps]
    | false =>
      rw [hq'] at habsolute
      rw [steps_join p habsolute, steps_join p hq', hsteps]

/-! ### Folding onto a stack -/

/-- A step into a name is always pushed. -/
@[simp] theorem push_into (stack : List Step) (name : String) :
    push stack (.into name) = .into name :: stack := by
  cases stack <;> rfl

/-- Steps that fold alike do so with the same steps after them. -/
theorem foldSteps_append_congr {ss ss' : List Step} (h : foldSteps ss = foldSteps ss')
    (rest : List Step) : foldSteps (ss ++ rest) = foldSteps (ss' ++ rest) := by
  have hstack : ss.foldl push [] = ss'.foldl push [] := List.reverse_inj.1 h
  rw [foldSteps, foldSteps, List.foldl_append, List.foldl_append, hstack]

/-- Absolute paths that are cleaned alike are so with the same path after them. -/
theorem clean_append_slash_congr {s s' : String} (hs : (Path.mk s).isAbsolute = true)
    (hs' : (Path.mk s').isAbsolute = true) (h : (Path.mk s).clean = (Path.mk s').clean) (t : String) :
    (Path.mk (s ++ "/" ++ t)).clean = (Path.mk (s' ++ "/" ++ t)).clean := by
  have hsteps := congrArg steps h
  rw [steps_clean, steps_clean] at hsteps
  apply clean_eq_clean
  · rw [String.append_assoc, String.append_assoc, isAbsolute_append hs, isAbsolute_append hs']
  · rw [steps_append_slash, steps_append_slash]
    exact foldSteps_append_congr hsteps _

/-- A separator at the end does not change a cleaned path. -/
theorem clean_append_slash_empty {s : String} (hs : (Path.mk s).isAbsolute = true) :
    (Path.mk (s ++ "/" ++ "")).clean = (Path.mk s).clean := by
  apply clean_eq_clean
  · rw [String.append_assoc, isAbsolute_append hs, hs]
  · rw [steps_append_slash, show (Path.mk "").steps = [] from rfl, List.append_nil]

/-- Steps into names are all pushed. -/
theorem foldl_push_into (names : List String) (stack : List Step) :
    (names.map Step.into).foldl push stack = (names.map Step.into).reverse ++ stack := by
  induction names generalizing stack with
  | nil => rfl
  | cons name names ih =>
    rw [List.map_cons, List.foldl_cons, push_into, ih, List.reverse_cons, List.append_assoc]
    rfl

/-- Nothing folds steps into names. -/
theorem foldSteps_append_into (ss : List Step) (names : List String) :
    foldSteps (ss ++ names.map .into) = foldSteps ss ++ names.map .into := by
  rw [foldSteps, foldSteps, List.foldl_append, foldl_push_into, List.reverse_append,
    List.reverse_reverse]

/-- A step into a name at the end stays when steps are folded. -/
theorem foldSteps_concat_into (ss : List Step) (name : String) :
    foldSteps (ss ++ [.into name]) = foldSteps ss ++ [.into name] :=
  foldSteps_append_into ss [name]

/-- Steps that are folded onto the empty stack and onto any other add the same to what is left of
the two, and of the empty stack nothing but a step up can be left. -/
theorem exists_foldl_push (ss stack : List Step) :
    ∃ added left left', ss.foldl push [] = added ++ left ∧ ss.foldl push stack = added ++ left' ∧
      (left = [] ∨ left = [.up]) := by
  have hfrom : ∀ (ss added left left' : List Step), (left = [] ∨ left = [.up]) →
      ∃ added' bottom bottom', ss.foldl push (added ++ left) = added' ++ bottom ∧
        ss.foldl push (added ++ left') = added' ++ bottom' ∧ (bottom = [] ∨ bottom = [.up]) := by
    intro ss
    induction ss with
    | nil =>
      intro added left left' hleft
      exact ⟨added, left, left', rfl, rfl, hleft⟩
    | cons s ss ih =>
      intro added left left' hleft
      cases s with
      | into name =>
        simp only [List.foldl_cons, push_into]
        exact ih (.into name :: added) left left' hleft
      | up =>
        cases added with
        | cons top added => exact ih added left left' hleft
        | nil =>
          -- nothing has been added: both stacks lose a step of their own, if they have one
          have hbottom : push left .up = [] ∨ push left .up = [.up] := by
            rcases hleft with rfl | rfl
            · exact .inr rfl
            · exact .inl rfl
          exact ih [] (push left .up) (push left' .up) hbottom
  exact hfrom ss [] [] stack (.inl rfl)

/-- Of steps that are folded alone and after others the last one is the same, if it goes into a
name both times. -/
theorem getLast?_foldSteps_append {before ss : List Step} {name name' : String}
    (halone : (foldSteps ss).getLast? = some (.into name))
    (hafter : (foldSteps (before ++ ss)).getLast? = some (.into name')) : name = name' := by
  obtain ⟨added, left, left', halone', hafter', hleft⟩ :=
    exists_foldl_push ss (before.foldl push [])
  rw [foldSteps, List.getLast?_reverse, halone'] at halone
  rw [foldSteps, List.getLast?_reverse, List.foldl_append, hafter'] at hafter
  cases added with
  | nil =>
    rcases hleft with rfl | rfl
    · cases halone
    · cases halone
  | cons top added =>
    rw [List.cons_append, List.head?_cons] at halone hafter
    have heq : Step.into name = Step.into name' :=
      (Option.some.inj halone).symm.trans (Option.some.inj hafter)
    exact Step.into.inj heq

end Preflight.Path

namespace Preflight

/-! ### Separators -/

/-- Backslashes are turned in each part of a text on its own. -/
theorem normalizeSeparators_append (s t : String) :
    normalizeSeparators (s ++ t) = normalizeSeparators s ++ normalizeSeparators t := by
  simp [normalizeSeparators]

/-- Without backslashes there is nothing to turn. -/
theorem normalizeSeparators_eq_self {text : String} (h : '\\' ∉ text.toList) :
    normalizeSeparators text = text := by
  have hsame : text.toList.map (fun c => if c = '\\' then '/' else c) = text.toList := by
    refine (List.map_congr_left ?_).trans (List.map_id _)
    intro c hc
    have hne : c ≠ '\\' := fun heq => h (heq ▸ hc)
    rw [if_neg hne, id]
  rw [normalizeSeparators, hsame, String.ofList_toList]

end Preflight
