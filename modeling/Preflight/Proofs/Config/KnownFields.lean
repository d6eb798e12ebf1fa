import Preflight.Config.Reader
import Preflight.Proofs.Failing

/-!
# The fields of a configuration

Each section has a list of known fields; for each of them it is known what its values mean
and where in the rules the meaning is kept. A section overrides rules if each field has the
meaning of the value that the section gives it, and what the rules have where the section
says nothing (`Overrides`). Reading a section gives the rules that it makes of the default
in this way (`readAgents_eq_ok_iff`, `readManifest_eq_ok_iff`, `readHooks_eq_ok_iff`), and
there are such rules exactly if each value that is given has a meaning. The same holds of
the sections together: a document is read exactly if it can be used, and as the
configuration that it makes of the default (`ofRoot_eq_ok_iff`, `IsUsable.exists_isSaidBy`).
-/

set_option autoImplicit false

namespace Preflight

open Preflight.Toml (Value)

namespace Config

/-! ### What values mean -/

def IsText (v : Value) (text : String) : Prop :=
  v = .string text

def IsNumber (v : Value) (n : UInt64) : Prop :=
  v = .integer n.toNat

def IsTexts (v : Value) (texts : List String) : Prop :=
  v = .array (texts.map .string)

/-- A table of numbers, whatever the order of its entries. -/
def IsNumbers (v : Value) (numbers : Table UInt64) : Prop :=
  ∃ entries : List (String × UInt64),
    v = .table (entries.map fun e => (e.1, .integer e.2.toNat)) ∧ numbers = .ofList entries

/-- Reading a text accepts exactly the texts. -/
theorem text?_eq_some_iff {v : Value} {text : String} : text? v = some text ↔ IsText v text := by
  cases v <;> simp [text?, IsText]

/-- Reading a number of seconds accepts exactly the integers that are not negative and fit. -/
theorem number?_eq_some_iff {v : Value} {n : UInt64} : number? v = some n ↔ IsNumber v n := by
  cases v with
  | integer i =>
    rw [number?, IsNumber, Value.integer.injEq]
    constructor
    · intro h
      split at h
      · next hi =>
        obtain ⟨hnonneg, hlt⟩ := hi
        obtain ⟨k, rfl⟩ := Int.eq_ofNat_of_zero_le hnonneg
        have hk : k < UInt64.size := Int.ofNat_lt.1 hlt
        rw [← Option.some.inj h, Int.toNat_natCast, UInt64.toNat_ofNat_of_lt' hk]
      · cases h
    · rintro rfl
      have hlt : (n.toNat : Int) < (UInt64.size : Int) := Int.ofNat_lt.2 n.toNat_lt
      rw [if_pos ⟨Int.natCast_nonneg _, hlt⟩, Int.toNat_natCast, UInt64.ofNat_toNat]
  | _ => simp [number?, IsNumber]

/-- Reading a list of texts accepts exactly the lists with nothing but texts in them. -/
theorem texts?_eq_some_iff {v : Value} {texts : List String} :
    texts? v = some texts ↔ IsTexts v texts := by
  cases v with
  | array items =>
    rw [texts?, IsTexts, Value.array.injEq]
    exact mapM_eq_some_iff fun _ _ => text?_eq_some_iff
  | _ => simp [texts?, IsTexts]

/-- Reading a table of numbers accepts exactly the tables with nothing but numbers in them. -/
theorem numbers?_eq_some_iff {v : Value} {numbers : Table UInt64} :
    numbers? v = some numbers ↔ IsNumbers v numbers := by
  cases v with
  | table entries =>
    have hentry (e : String × Value) (b : String × UInt64) :
        (number? e.2).map (fun n => (e.1, n)) = some b ↔ e = (b.1, .integer b.2.toNat) := by
      simp only [Option.map_eq_some_iff, number?_eq_some_iff, IsNumber]
      constructor
      · rintro ⟨n, hn, rfl⟩
        rw [← hn]
      · rintro rfl
        exact ⟨b.2, rfl, rfl⟩
    simp only [numbers?, IsNumbers, Value.table.injEq, Option.map_eq_some_iff,
      mapM_eq_some_iff hentry]
    exact exists_congr fun _ => and_congr_right fun _ => eq_comm
  | _ => simp [numbers?, IsNumbers]

/-! ### One field -/

/-- What a field is if a section overrides its default: the meaning of the value that the section gives it,
or the default if there is none. -/
def Fields.Gives {α : Type} (fields : Fields) (Means : Value → α → Prop) (position : Nat) (name : String)
    (default a : α) : Prop :=
  match fields.value? position name with
  | some v => Means v a
  | none => a = default

section

variable {α β : Type} {read? : Value → Option α} {Means : Value → α → Prop} {fields : Fields}
  {position : Nat} {name : String} {default : α}

/-- A field is read as what it says, or as the default if nothing is said of it. -/
theorem read_eq_ok_iff (hread : ∀ {v a}, read? v = some a ↔ Means v a) {a : α} :
    fields.read read? position name default = .ok a ↔ fields.Gives Means position name default a := by
  rw [Fields.read, Fields.Gives]
  cases fields.value? position name with
  | none => simp [eq_comm]
  | some v =>
    dsimp only
    rw [← hread]
    cases read? v <;> simp

/-- A field is read before those after it. -/
theorem read_bind_eq_ok_iff (hread : ∀ {v a}, read? v = some a ↔ Means v a) {next : α → Except Flaw β}
    {b : β} :
    fields.read read? position name default >>= next = .ok b ↔
      ∃ a, fields.Gives Means position name default a ∧ next a = .ok b := by
  simp only [bind_eq_ok_iff, read_eq_ok_iff hread]

end

/-! ### The fields of a section -/

/-- What holds of a list with positions holds of its first entry and of the rest. -/
theorem forall_mem_zipIdx_cons {α : Type _} {P : α × Nat → Prop} {a : α} {as : List α} {n : Nat} :
    (∀ p ∈ (a :: as).zipIdx n, P p) ↔ P (a, n) ∧ ∀ p ∈ as.zipIdx (n + 1), P p := by
  rw [List.zipIdx_cons, List.forall_mem_cons]

/-- All entries of the empty list have any property. -/
theorem forall_mem_zipIdx_nil {α : Type _} {P : α × Nat → Prop} {n : Nat} :
    (∀ p ∈ ([] : List α).zipIdx n, P p) ↔ True := by
  simp

/-- A known field of a section with the rules `σ`: its name, what its values mean and where the meaning
is kept. -/
structure Field (σ : Type) where
  {α : Type}
  name : String
  Means : Value → α → Prop
  get : σ → α

section

variable {σ : Type}

/-- Rules that a section makes of a default, field by field. -/
def Overrides (known : List (Field σ)) (fields : Fields) (default rules : σ) : Prop :=
  ∀ p ∈ known.zipIdx, fields.Gives p.1.Means p.2 p.1.name (p.1.get default) (p.1.get rules)

/-- Each value that a section gives to a known field has the type of the field. -/
def AreWellTyped (known : List (Field σ)) (fields : Fields) : Prop :=
  ∀ p ∈ known.zipIdx, ∀ v, fields.value? p.2 p.1.name = some v → ∃ a, p.1.Means v a

/-- Fields that override a default are of the right types. -/
theorem Overrides.areWellTyped {known : List (Field σ)} {fields : Fields} {default rules : σ}
    (h : Overrides known fields default rules) : AreWellTyped known fields := by
  intro p hp v hv
  have hgives := h p hp
  rw [Fields.Gives, hv] at hgives
  exact ⟨_, hgives⟩

/-- Fields of the right types give each known field a value, said or by default. -/
theorem AreWellTyped.exists_gives {known : List (Field σ)} {fields : Fields}
    (h : AreWellTyped known fields) (default : σ) :
    ∀ p ∈ known.zipIdx, ∃ a, fields.Gives p.1.Means p.2 p.1.name (p.1.get default) a := by
  intro p hp
  cases hv : fields.value? p.2 p.1.name with
  | some v =>
    obtain ⟨a, ha⟩ := h p hp v hv
    exact ⟨a, by rwa [Fields.Gives, hv]⟩
  | none => exact ⟨p.1.get default, by rw [Fields.Gives, hv]⟩

end

/-! ### The sections -/

def agentFields : List (Field AgentRules) :=
  [⟨"dir", IsText, AgentRules.dir⟩, ⟨"suffix", IsText, AgentRules.suffix⟩,
    ⟨"required_fields", IsTexts, AgentRules.requiredFields⟩, ⟨"models", IsTexts, AgentRules.models⟩,
    ⟨"min_description_chars", IsNumber, AgentRules.minDescriptionChars⟩,
    ⟨"min_body_chars", IsNumber, AgentRules.minBodyChars⟩]

def manifestFields : List (Field ManifestRules) :=
  [⟨"path", IsText, ManifestRules.path⟩, ⟨"key", IsText, ManifestRules.key⟩,
    ⟨"root", IsText, ManifestRules.root⟩]

def hookFields : List (Field HookRules) :=
  [⟨"global", IsText, HookRules.globalPath⟩, ⟨"project", IsText, HookRules.projectPath⟩,
    ⟨"min_timeout", IsNumber, HookRules.minTimeout⟩, ⟨"max_timeout", IsNumber, HookRules.maxTimeout⟩,
    ⟨"default_timeout", IsNumber, HookRules.defaultTimeout⟩,
    ⟨"lifecycles", IsTexts, HookRules.lifecycles⟩, ⟨"action_types", IsTexts, HookRules.actionTypes⟩,
    ⟨"interpreters", IsTexts, HookRules.interpreters⟩,
    ⟨"recommended_timeouts", IsNumbers, HookRules.recommendedTimeouts⟩]

/-- The reader of the first section overrides the default rules for descriptors by what is said. -/
theorem readAgents_eq_ok_iff {fields : Fields} {rules : AgentRules} :
    readAgents fields = .ok rules ↔ Overrides agentFields fields .default rules := by
  simp only [readAgents, read_bind_eq_ok_iff text?_eq_some_iff, read_bind_eq_ok_iff texts?_eq_some_iff,
    read_bind_eq_ok_iff number?_eq_some_iff, pure_eq_ok_iff, Overrides, agentFields,
    forall_mem_zipIdx_cons, forall_mem_zipIdx_nil, and_true]
  constructor
  · rintro ⟨dir, hdir, suffix, hsuffix, required, hrequired, models, hmodels, description, hdescription,
      body, hbody, rfl⟩
    exact ⟨hdir, hsuffix, hrequired, hmodels, hdescription, hbody⟩
  · rintro ⟨hdir, hsuffix, hrequired, hmodels, hdescription, hbody⟩
    exact ⟨_, hdir, _, hsuffix, _, hrequired, _, hmodels, _, hdescription, _, hbody, rfl⟩

/-- The reader of the second section overrides the default rules for the manifest by what is said. -/
theorem readManifest_eq_ok_iff {fields : Fields} {rules : ManifestRules} :
    readManifest fields = .ok rules ↔ Overrides manifestFields fields .default rules := by
  simp only [readManifest, read_bind_eq_ok_iff text?_eq_some_iff, pure_eq_ok_iff,
    Overrides, manifestFields, forall_mem_zipIdx_cons, forall_mem_zipIdx_nil, and_true]
  constructor
  · rintro ⟨path, hpath, key, hkey, root, hroot, rfl⟩
    exact ⟨hpath, hkey, hroot⟩
  · rintro ⟨hpath, hkey, hroot⟩
    exact ⟨_, hpath, _, hkey, _, hroot, rfl⟩

/-- The reader of the third section overrides the default rules for settings by what is said. -/
theorem readHooks_eq_ok_iff {fields : Fields} {rules : HookRules} :
    readHooks fields = .ok rules ↔ Overrides hookFields fields .default rules := by
  simp only [readHooks, read_bind_eq_ok_iff text?_eq_some_iff, read_bind_eq_ok_iff texts?_eq_some_iff,
    read_bind_eq_ok_iff number?_eq_some_iff, read_bind_eq_ok_iff numbers?_eq_some_iff, pure_eq_ok_iff,
    Overrides, hookFields, forall_mem_zipIdx_cons, forall_mem_zipIdx_nil, and_true]
  constructor
  · rintro ⟨globalPath, hglobal, projectPath, hproject, least, hleast, greatest, hgreatest, usual, husual,
      lifecycles, hlifecycles, types, htypes, interpreters, hinterpreters, recommended, hrecommended, rfl⟩
    exact ⟨hglobal, hproject, hleast, hgreatest, husual, hlifecycles, htypes, hinterpreters, hrecommended⟩
  · rintro ⟨hglobal, hproject, hleast, hgreatest, husual, hlifecycles, htypes, hinterpreters, hrecommended⟩
    exact ⟨_, hglobal, _, hproject, _, hleast, _, hgreatest, _, husual, _, hlifecycles, _, htypes, _,
      hinterpreters, _, hrecommended, rfl⟩

/-- Fields of the right types make rules for descriptors. -/
theorem exists_agentRules {fields : Fields} (h : AreWellTyped agentFields fields) :
    ∃ rules, Overrides agentFields fields .default rules := by
  have hgives := h.exists_gives .default
  simp only [Overrides, agentFields, forall_mem_zipIdx_cons, forall_mem_zipIdx_nil, and_true] at hgives ⊢
  obtain ⟨⟨dir, hdir⟩, ⟨suffix, hsuffix⟩, ⟨required, hrequired⟩, ⟨models, hmodels⟩,
    ⟨description, hdescription⟩, ⟨body, hbody⟩⟩ := hgives
  exact ⟨⟨dir, suffix, required, models, description, body⟩, hdir, hsuffix, hrequired, hmodels,
    hdescription, hbody⟩

/-- Fields of the right types make rules for the manifest. -/
theorem exists_manifestRules {fields : Fields} (h : AreWellTyped manifestFields fields) :
    ∃ rules, Overrides manifestFields fields .default rules := by
  have hgives := h.exists_gives .default
  simp only [Overrides, manifestFields, forall_mem_zipIdx_cons, forall_mem_zipIdx_nil, and_true] at hgives ⊢
  obtain ⟨⟨path, hpath⟩, ⟨key, hkey⟩, ⟨root, hroot⟩⟩ := hgives
  exact ⟨⟨path, key, root⟩, hpath, hkey, hroot⟩

/-- Fields of the right types make rules for settings. -/
theorem exists_hookRules {fields : Fields} (h : AreWellTyped hookFields fields) :
    ∃ rules, Overrides hookFields fields .default rules := by
  have hgives := h.exists_gives .default
  simp only [Overrides, hookFields, forall_mem_zipIdx_cons, forall_mem_zipIdx_nil, and_true] at hgives ⊢
  obtain ⟨⟨globalPath, hglobal⟩, ⟨projectPath, hproject⟩, ⟨least, hleast⟩, ⟨greatest, hgreatest⟩,
    ⟨usual, husual⟩, ⟨lifecycles, hlifecycles⟩, ⟨types, htypes⟩, ⟨interpreters, hinterpreters⟩,
    ⟨recommended, hrecommended⟩⟩ := hgives
  exact ⟨⟨globalPath, projectPath, least, greatest, usual, lifecycles, types, interpreters, recommended⟩,
    hglobal, hproject, hleast, hgreatest, husual, hlifecycles, htypes, hinterpreters, hrecommended⟩

/-! ### Sections of a document -/

/-- What a document says about the fields of a section: by name in a table, in order in a list, and nothing
if the section is a date or is not there. -/
inductive IsSection (document : List (String × Value)) (name : String) : Fields → Prop
  | absent : Toml.find? name document = none → IsSection document name (.byName [])
  | table {entries} : Toml.find? name document = some (.table entries) →
    IsSection document name (.byName entries)
  | list {values} : Toml.find? name document = some (.array values) →
    IsSection document name (.byPosition values)
  | dateTime {d} : Toml.find? name document = some (.dateTime d) → IsSection document name (.byName [])

/-- A document says one thing about a section. -/
theorem IsSection.unique {document : List (String × Value)} {name : String} {fields fields' : Fields}
    (h : IsSection document name fields) (h' : IsSection document name fields') : fields = fields' := by
  cases h <;> cases h' <;> simp_all

/-- Each number in the entries of a section can be held; in a list only the fields are looked at. -/
def Fields.AreHeld : Fields → Prop
  | .byName entries => ∀ e ∈ entries, e.2.isRepresentable = true
  | .byPosition _ => True

/-- The check of entries passes exactly if no number in them is too large to be held. -/
theorem checkNumbers_eq_ok_iff {entries : List (String × Value)} :
    checkNumbers entries = .ok () ↔ ∀ e ∈ entries, e.2.isRepresentable = true := by
  have hnone : entries.find? (fun e => !e.2.isRepresentable) = none ↔
      ∀ e ∈ entries, e.2.isRepresentable = true := by
    simp [List.find?_eq_none]
  rw [← hnone, checkNumbers]
  cases entries.find? fun e => !e.2.isRepresentable <;> simp

/-- The check of a section passes exactly if no number in it is too large to be held. -/
theorem check_eq_ok_iff {fields : Fields} : fields.check = .ok () ↔ fields.AreHeld := by
  cases fields with
  | byName entries => exact checkNumbers_eq_ok_iff
  | byPosition values => exact iff_of_true rfl trivial

section

variable {σ : Type} {document : List (String × Value)} {name : String} {known : List (Field σ)}
  {default rules : σ}

/-- The rules that a section of a document makes of a default. -/
def SectionGives (document : List (String × Value)) (name : String) (known : List (Field σ))
    (default rules : σ) : Prop :=
  ∃ fields, IsSection document name fields ∧ Overrides known fields default rules

/-- A section of a document has known fields of the right types, and no number in it is too large to be
held. -/
def SectionIsUsable (document : List (String × Value)) (name : String) (known : List (Field σ)) : Prop :=
  ∃ fields, IsSection document name fields ∧ fields.AreHeld ∧ AreWellTyped known fields

/-- A section that says nothing leaves the default as it is. -/
theorem overrides_nothing : Overrides known (.byName []) default default := by
  intro p _
  rw [Fields.Gives, show (Fields.byName []).value? p.2 p.1.name = none from rfl]

/-- A section that is absent gives the default. -/
theorem sectionGives_of_absent (h : Toml.find? name document = none) :
    SectionGives document name known default default :=
  ⟨_, .absent h, overrides_nothing⟩

/-- A section that is absent is usable. -/
theorem sectionIsUsable_of_absent (h : Toml.find? name document = none) :
    SectionIsUsable document name known :=
  ⟨_, .absent h, fun _ he => absurd he List.not_mem_nil, fun _ _ _ hv => nomatch hv⟩

/-- A usable section gives rules, if well-typed fields always make some. -/
theorem SectionIsUsable.exists_sectionGives (h : SectionIsUsable document name known)
    (hrules : ∀ {fields}, AreWellTyped known fields → ∃ rules, Overrides known fields default rules) :
    ∃ rules, SectionGives document name known default rules := by
  obtain ⟨fields, hfields, -, htyped⟩ := h
  obtain ⟨rules, hoverrides⟩ := hrules htyped
  exact ⟨rules, fields, hfields, hoverrides⟩

section

variable {read : Fields → Except Flaw σ}

/-- A section is read by checking its numbers and then reading its fields. -/
theorem IsSection.readSection_eq {fields : Fields} (h : IsSection document name fields)
    (hnothing : read (.byName []) = .ok default) :
    readSection document name default read = (do fields.check; read fields) := by
  cases h with
  | absent hfind =>
    rw [readSection, hfind]
    exact hnothing.symm
  | table hfind | list hfind | dateTime hfind => rw [readSection, hfind]; rfl

/-- What is read as a section is absent, a table, a list or a date-time. -/
theorem exists_isSection (h : readSection document name default read = .ok rules) :
    ∃ fields, IsSection document name fields := by
  cases hfind : Toml.find? name document with
  | none => exact ⟨_, .absent hfind⟩
  | some v =>
    cases v with
    | table entries => exact ⟨_, .table hfind⟩
    | array values => exact ⟨_, .list hfind⟩
    | dateTime d => exact ⟨_, .dateTime hfind⟩
    | _ =>
      rw [readSection, hfind] at h
      cases h

/-- A section is read exactly if it can be used, and as what it says. -/
theorem readSection_eq_ok_iff
    (hread : ∀ {fields rules}, read fields = .ok rules ↔ Overrides known fields default rules) :
    readSection document name default read = .ok rules ↔
      SectionIsUsable document name known ∧ SectionGives document name known default rules := by
  have hnothing : read (.byName []) = .ok default := hread.2 overrides_nothing
  constructor
  · intro h
    obtain ⟨fields, hfields⟩ := exists_isSection h
    rw [hfields.readSection_eq hnothing] at h
    obtain ⟨⟨⟩, hcheck, hrules⟩ := bind_eq_ok_iff.1 h
    have hoverrides : Overrides known fields default rules := hread.1 hrules
    exact ⟨⟨fields, hfields, check_eq_ok_iff.1 hcheck, hoverrides.areWellTyped⟩, fields, hfields, hoverrides⟩
  · rintro ⟨⟨fields, hfields, hheld, -⟩, fields', hfields', hoverrides⟩
    obtain rfl := hfields.unique hfields'
    rw [hfields.readSection_eq hnothing]
    exact bind_eq_ok_iff.2 ⟨(), check_eq_ok_iff.2 hheld, hread.2 hoverrides⟩

end

end

/-! ### Documents -/

/-- A document that says a configuration or fails to say one: its sections can be used, and each number
in its other entries can be held. -/
structure IsUsable (document : List (String × Value)) : Prop where
  others : ∀ e ∈ document, e.1 ∉ sectionNames → e.2.isRepresentable = true
  agents : SectionIsUsable document "agents" agentFields
  manifest : SectionIsUsable document "manifest" manifestFields
  hooks : SectionIsUsable document "hooks" hookFields

/-- A configuration that a document makes of the default, section by section. -/
structure IsSaidBy (document : List (String × Value)) (c : Config) : Prop where
  agents : SectionGives document "agents" agentFields .default c.agents
  manifest : SectionGives document "manifest" manifestFields .default c.manifest
  hooks : SectionGives document "hooks" hookFields .default c.hooks

/-- A document is read as a configuration exactly if it is usable, and as the one that it says. -/
theorem ofRoot_eq_ok_iff {document : List (String × Value)} {c : Config} :
    ofRoot document = .ok c ↔ IsUsable document ∧ IsSaidBy document c := by
  have hothers : checkNumbers (document.filter fun e => !sectionNames.contains e.1) = .ok () ↔
      ∀ e ∈ document, e.1 ∉ sectionNames → e.2.isRepresentable = true :=
    checkNumbers_eq_ok_iff.trans (by simp)
  simp only [ofRoot, bind_eq_ok_iff, readSection_eq_ok_iff readAgents_eq_ok_iff,
    readSection_eq_ok_iff readManifest_eq_ok_iff, readSection_eq_ok_iff readHooks_eq_ok_iff, pure_eq_ok_iff]
  constructor
  · rintro ⟨⟨⟩, hheld, agents, ⟨hagents, hgives⟩, manifest, ⟨hmanifest, hgives'⟩, hooks,
      ⟨hhooks, hgives''⟩, rfl⟩
    exact ⟨⟨hothers.1 hheld, hagents, hmanifest, hhooks⟩, ⟨hgives, hgives', hgives''⟩⟩
  · rintro ⟨husable, hsaid⟩
    exact ⟨(), hothers.2 husable.others, _, ⟨husable.agents, hsaid.agents⟩, _, ⟨husable.manifest, hsaid.manifest⟩, _,
      ⟨husable.hooks, hsaid.hooks⟩, rfl⟩

/-- A usable document says some configuration. -/
theorem IsUsable.exists_isSaidBy {document : List (String × Value)} (h : IsUsable document) :
    ∃ c, IsSaidBy document c := by
  obtain ⟨agents, hagents⟩ := h.agents.exists_sectionGives exists_agentRules
  obtain ⟨manifest, hmanifest⟩ := h.manifest.exists_sectionGives exists_manifestRules
  obtain ⟨hooks, hhooks⟩ := h.hooks.exists_sectionGives exists_hookRules
  exact ⟨⟨agents, manifest, hooks⟩, hagents, hmanifest, hhooks⟩

end Config

end Preflight
