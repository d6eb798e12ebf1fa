import Mathlib.Data.List.Basic
import Preflight.Proofs.Path.Steps

/-!
# Paths that climb above where they start

A step up that no step into a name comes before leads above the place where a path
starts. To any stack, steps do the same as going up as far as they climb and then into
the names that they keep (`foldl_push_eq`).

A path that is cleaned on its own has nothing below it to go up on, and so a second
step up takes the first one back. What is left climbs by one step if the path climbs by
an odd number of steps, and does not climb otherwise (`foldSteps_eq`). Hence a cleaned
path means the same as the path exactly if the path climbs by at most one step
(`clean_join_clean_iff`).
-/

set_option autoImplicit false

namespace Preflight.Path

/-! ### Climbing -/

/-- How far steps lead above the place where they start. -/
def climb : List Step → Nat
  | [] => 0
  | .up :: ss => climb ss + 1
  | .into _ :: ss => climb ss - 1

/-- The names that no later step up takes back. -/
def kept : List Step → List String
  | [] => []
  | .up :: ss => kept ss
  | .into name :: ss => if climb ss = 0 then name :: kept ss else kept ss

/-- What holds of all starts of a list holds of the empty one and of those with its first step. -/
theorem forall_prefix_cons_iff {P : List Step → Prop} (s : Step) (ss : List Step) :
    (∀ first, first <+: s :: ss → P first) ↔ P [] ∧ ∀ first, first <+: ss → P (s :: first) := by
  constructor
  · intro h
    exact ⟨h [] List.nil_prefix, fun first hfirst => h _ ((List.prefix_cons_inj s).2 hfirst)⟩
  · rintro ⟨hnil, hcons⟩ first hfirst
    rcases List.prefix_cons_iff.1 hfirst with rfl | ⟨rest, rfl, hrest⟩
    · exact hnil
    · exact hcons rest hrest

/-- Steps climb by as much as the steps up in some beginning of them outnumber those into names. -/
theorem climb_le_iff (ss : List Step) (n : Nat) :
    climb ss ≤ n ↔ ∀ first, first <+: ss → first.count .up ≤ first.countP (· ≠ .up) + n := by
  induction ss generalizing n with
  | nil => simp [climb]
  | cons s ss ih =>
    rw [forall_prefix_cons_iff]
    cases s with
    | into name =>
      rw [climb, Nat.sub_le_iff_le_add, ih]
      simp [Nat.add_right_comm, Nat.add_assoc]
    | up =>
      cases n with
      | zero =>
        rw [climb]
        refine ⟨fun h => absurd h (by omega), fun h => ?_⟩
        have halone := h.2 [] List.nil_prefix
        simp at halone
      | succ n =>
        rw [climb, Nat.add_le_add_iff_right, ih]
        simp [← Nat.add_assoc]

/-- No more steps climb than lead up. -/
theorem climb_le_count (ss : List Step) : climb ss ≤ ss.count .up := by
  induction ss with
  | nil => exact Nat.le_refl 0
  | cons s ss ih =>
    cases s with
    | up => simpa [climb] using ih
    | into name =>
      have hcount : (Step.into name :: ss).count .up = ss.count .up := by simp
      rw [climb, hcount]
      omega

/-- Each step up at the start climbs. -/
theorem climb_replicate_append (n : Nat) (ss : List Step) :
    climb (List.replicate n .up ++ ss) = n + climb ss := by
  induction n with
  | zero => simp
  | succ n ih =>
    rw [List.replicate_succ, List.cons_append, climb, ih]
    omega

/-- Steps up at the start keep no name away. -/
theorem kept_replicate_append (n : Nat) (ss : List Step) :
    kept (List.replicate n .up ++ ss) = kept ss := by
  induction n with
  | zero => rfl
  | succ n ih => rw [List.replicate_succ, List.cons_append, kept, ih]

/-- Names do not climb. -/
theorem climb_names (names : List String) : climb (names.map .into) = 0 := by
  induction names with
  | nil => rfl
  | cons name names ih => rw [List.map_cons, climb, ih]

/-- Names alone are all kept. -/
theorem kept_names (names : List String) : kept (names.map .into) = names := by
  induction names with
  | nil => rfl
  | cons name names ih => rw [List.map_cons, kept, if_pos (climb_names names), ih]

/-- Steps none of which goes up go into names. -/
theorem exists_names {ss : List Step} (h : .up ∉ ss) :
    ∃ names : List String, ss = names.map .into := by
  induction ss with
  | nil => exact ⟨[], rfl⟩
  | cons s ss ih =>
    obtain ⟨names, rfl⟩ := ih fun hmem => h (List.mem_cons_of_mem s hmem)
    cases s with
    | up => exact absurd List.mem_cons_self h
    | into name => exact ⟨name :: names, rfl⟩

/-! ### Folding -/

/-- Folding steps onto a stack goes up as far as they climb and then into the names that they keep. -/
theorem foldl_push_eq (ss stack : List Step) :
    ss.foldl push stack =
      ((kept ss).map .into).reverse ++ (List.replicate (climb ss) .up).foldl push stack := by
  induction ss generalizing stack with
  | nil => rfl
  | cons s ss ih =>
    cases s with
    | up => rw [List.foldl_cons, ih, kept, climb, List.replicate_succ, List.foldl_cons]
    | into name =>
      rw [List.foldl_cons, ih, push_into, kept, climb]
      cases hclimb : climb ss with
      | zero => simp
      | succ n =>
        -- the first of the steps up that are left takes the name back
        rw [if_neg (Nat.succ_ne_zero n), List.replicate_succ, List.foldl_cons, Nat.add_sub_cancel]
        rfl

/-- Steps up take as many steps from the stack, if there are enough. -/
theorem foldl_push_up {n : Nat} {stack : List Step} (h : n ≤ stack.length) :
    (List.replicate n .up).foldl push stack = stack.drop n := by
  induction n generalizing stack with
  | zero => rfl
  | succ n ih =>
    cases stack with
    | nil => cases h
    | cons top stack =>
      rw [List.replicate_succ, List.foldl_cons, List.drop_succ_cons]
      exact ih (Nat.le_of_succ_le_succ h)

/-- On the empty stack two steps up leave nothing. -/
theorem foldl_push_up_nil : ∀ n : Nat,
    (List.replicate n .up).foldl push [] = List.replicate (n % 2) .up
  | 0 => rfl
  | 1 => rfl
  | n + 2 => by
    rw [List.replicate_succ, List.replicate_succ, Nat.add_mod_right]
    exact foldl_push_up_nil n

/-- Folded steps are one step up, if an odd number of steps climbs, and then the names that are kept. -/
theorem foldSteps_eq (ss : List Step) :
    foldSteps ss = List.replicate (climb ss % 2) .up ++ (kept ss).map .into := by
  rw [foldSteps, foldl_push_eq, foldl_push_up_nil, List.reverse_append, List.reverse_reverse,
    List.reverse_replicate]

/-- Of the steps that climb folding keeps one or none. -/
theorem climb_foldSteps (ss : List Step) : climb (foldSteps ss) = climb ss % 2 := by
  rw [foldSteps_eq, climb_replicate_append, climb_names, Nat.add_zero]

/-- Folding keeps the names that are kept. -/
theorem kept_foldSteps (ss : List Step) : kept (foldSteps ss) = kept ss := by
  rw [foldSteps_eq, kept_replicate_append, kept_names]

/-- After names enough, steps take back as many of them as they climb. -/
theorem foldSteps_names_append {names : List String} {ss : List Step}
    (h : climb ss ≤ names.length) :
    foldSteps (names.map .into ++ ss) =
      (names.take (names.length - climb ss) ++ kept ss).map .into := by
  have hstack : climb ss ≤ ((names.map Step.into).reverse).length := by simpa using h
  rw [foldSteps, List.foldl_append, foldl_push_into, List.append_nil, foldl_push_eq,
    foldl_push_up hstack, List.reverse_append, List.reverse_reverse, ← List.map_reverse,
    ← List.map_drop, ← List.map_reverse, List.drop_reverse, List.reverse_reverse, List.map_append]

/-! ### Cleaned paths -/

/-- **Cleaning a relative path.** After a directory that is deep enough a relative path means the
same when it is cleaned before exactly if no beginning of it has two more steps up than steps into
names. -/
theorem clean_join_clean_iff {base p : Path} (hbase : base.isAbsolute = true)
    (hnames : .up ∉ base.steps) (hp : p.isAbsolute = false)
    (hdeep : p.steps.count .up ≤ base.steps.length) :
    (base.join p).clean = (base.join p.clean).clean ↔
      ∀ first, first <+: p.steps → first.count .up ≤ first.countP (· ≠ .up) + 1 := by
  obtain ⟨names, hsteps⟩ := exists_names hnames
  have hclimb : climb p.steps ≤ names.length := by
    have hcount := climb_le_count p.steps
    rw [hsteps, List.length_map] at hdeep
    omega
  have hclean : climb (foldSteps p.steps) ≤ names.length := by
    rw [climb_foldSteps]
    exact Nat.le_trans (Nat.mod_le _ 2) hclimb
  have hrelative : p.clean.isAbsolute = false := (isAbsolute_clean_eq p).trans hp
  have hcleaned : (base.join p).clean.steps =
      (names.take (names.length - climb p.steps) ++ kept p.steps).map .into := by
    rw [steps_clean, steps_join base hp, hsteps, foldSteps_names_append hclimb]
  have hcleaned' : (base.join p.clean).clean.steps =
      (names.take (names.length - climb p.steps % 2) ++ kept p.steps).map .into := by
    rw [steps_clean, steps_join base hrelative, steps_clean, hsteps,
      foldSteps_names_append hclean, climb_foldSteps, kept_foldSteps]
  rw [← climb_le_iff]
  constructor
  · intro heq
    have hlength := congrArg (List.length ∘ steps) heq
    simp only [Function.comp, hcleaned, hcleaned', List.length_map, List.length_append,
      List.length_take] at hlength
    omega
  · intro hle
    have hsame : climb p.steps % 2 = climb p.steps := Nat.mod_eq_of_lt (by omega)
    apply clean_eq_clean
    · rw [isAbsolute_join, isAbsolute_join, hbase, Bool.true_or, Bool.true_or]
    · rw [← steps_clean, ← steps_clean, hcleaned, hcleaned', hsame]

/-- Detours that climb by one step in all may come in any order. -/
theorem clean_join_clean_of_detours :
    let base : Path := ⟨"/x/./y//z"⟩
    let p : Path := ⟨"a/../..//b/./../c/"⟩
    base.isAbsolute = true ∧ .up ∉ base.steps ∧ p.isAbsolute = false ∧
      p.steps.count .up ≤ base.steps.length ∧ (base.join p).clean = (base.join p.clean).clean := by
  intro base p
  have hclimb : climb p.steps ≤ 1 := by decide +kernel
  have hclean : (base.join p).clean = (base.join p.clean).clean ↔ _ :=
    clean_join_clean_iff (by decide) (by decide +kernel) (by decide) (by decide +kernel)
  exact ⟨by decide, by decide +kernel, by decide, by decide +kernel,
    hclean.2 ((climb_le_iff p.steps 1).1 hclimb)⟩

/-- Two steps up vanish when a path is cleaned on its own. -/
theorem clean_join_clean_ne :
    let base : Path := ⟨"/x/y"⟩
    let p : Path := ⟨"../.."⟩
    base.isAbsolute = true ∧ .up ∉ base.steps ∧ p.isAbsolute = false ∧
      p.steps.count .up ≤ base.steps.length ∧ p.clean = ⟨""⟩ ∧
      (base.join p).clean = ⟨"/"⟩ ∧ (base.join p.clean).clean = ⟨"/x/y"⟩ := by
  decide +kernel

end Preflight.Path
