-- SUMMARY: A configuration file replaces the settings it names and leaves the others at their defaults.
import Cosign.Config.File
import Cosign.Proofs.Toml.Document

/-!
# What configuration files say

The settings of a document are values under certain keys of certain sections
(`Config.Overrides.NamedBy`). Where else a document has entries, and in which order it has any,
makes no difference. Such a document comes to a configuration with just these settings replaced, or
to the first feature in its list that is none (`Config.Overrides.Yields`), and the ledger that
is founded on a configuration takes its terms from it (`Config.Founds`).
-/

namespace Cosign

open Toml (Value Table)

/-! ## Features by name -/

namespace Feature

theorem ofName?_name (feature : Feature) : ofName? feature.name = some feature := by
  cases feature
  decide

theorem ofName?_eq_none {name : String} (h : ofName? name = none) (feature : Feature) :
    feature.name ≠ name := by
  rintro rfl
  cases h.symm.trans (ofName?_name feature)

theorem name_of_ofName? {name : String} {feature : Feature} (h : ofName? name = some feature) :
    feature.name = name := by
  have hname := List.find?_some h
  exact eq_of_beq hname

end Feature

namespace Rules

theorem isEnabled_enable (rules : Rules) (feature other : Feature) :
    (rules.enable feature).isEnabled other = true ↔
      other = feature ∨ rules.isEnabled other = true := by
  cases feature
  cases other
  simp [enable, switch, isEnabled]

theorem isEnabled_foldl_enable (features : List Feature) (rules : Rules) (feature : Feature) :
    (features.foldl enable rules).isEnabled feature = true ↔
      feature ∈ features ∨ rules.isEnabled feature = true := by
  induction features generalizing rules with
  | nil => simp
  | cons first features ih =>
      rw [List.foldl_cons, ih, isEnabled_enable, List.mem_cons]
      tauto

/-- How often a feature is listed makes no difference. -/
theorem isEnabled_ofFeatures (features : List Feature) (feature : Feature) :
    (ofFeatures features).isEnabled feature = true ↔ feature ∈ features := by
  have hnone : Rules.isEnabled {} feature = false := by
    cases feature
    rfl
  simp [ofFeatures, isEnabled_foldl_enable, hnone]

end Rules

/-! ## Settings of a document -/

namespace Toml

/-- The entries of a value that may stand for a section. -/
def Value.entries? : Value → Option Table
  | .table _ entries => some entries
  | .inline entries => some entries
  | _ => none

/-- The value under a key of a section. -/
def Table.setting? (document : Table) (name key : String) : Option Value :=
  ((document.lookup name).bind Value.entries?).bind fun entries => entries.lookup key

end Toml

namespace Config

def ofWord (word : UInt64) : Value := .integer word.toNat

def ofTexts (texts : List String) : Value := .array (texts.map .string)

/-- The settings that a document has under the documented keys of the documented sections.

Nothing is said of other keys and sections, nor of the order of any. -/
structure Overrides.NamedBy (overrides : Overrides) (document : Table) : Prop where
  sections : ∀ name ∈ ["fees", "rules", "directory", "service"], ∀ value ∈ document.lookup name,
    value.entries?.isSome = true
  baseFee : document.setting? "fees" "base" = overrides.baseFee.map ofWord
  reserveBase : document.setting? "fees" "reserve" = overrides.reserveBase.map ofWord
  reserveIncrement : document.setting? "fees" "increment" = overrides.reserveIncrement.map ofWord
  featureNames : document.setting? "rules" "features" = overrides.featureNames.map ofTexts
  keysPerPage :
    document.setting? "directory" "max_entries_per_page" = overrides.keysPerPage.map ofWord
  pages : document.setting? "directory" "max_pages" = overrides.pages.map ofWord
  haltOnInternal :
    document.setting? "service" "halt_on_internal" = overrides.haltOnInternal.map .boolean

/-- What comes of settings: each that is named replaces the default, unless a feature is unknown. -/
inductive Overrides.Yields (overrides : Overrides) : Except ConfigError Config → Prop
  | config {config : Config}
      (baseFee : config.baseFee = overrides.baseFee.getD 10)
      (reserveBase : config.reserveBase = overrides.reserveBase.getD 20000000)
      (reserveIncrement : config.reserveIncrement = overrides.reserveIncrement.getD 5000000)
      (features :
        config.features.map Feature.name = overrides.featureNames.getD ["MultiSignReserve"])
      (keysPerPage : config.keysPerPage = overrides.keysPerPage.getD 32)
      (pages : config.pages = overrides.pages.getD 262144)
      (haltOnInternal : config.haltOnInternal = overrides.haltOnInternal.getD true) :
      Yields overrides (.ok config)
  | unknownFeature {known : List Feature} {name : String} {rest : List String}
      (named : overrides.featureNames = some (known.map Feature.name ++ name :: rest))
      (unknown : ∀ feature : Feature, feature.name ≠ name) :
      Yields overrides (.error (.unknownFeature name))

/-- An empty ledger under the terms of a configuration. -/
structure Founds (config : Config) (ledger : Ledger) : Prop where
  empty : ∀ key, View.find? ledger key = none
  fees : ledger.terms.fees = ⟨config.baseFee, config.reserveBase, config.reserveIncrement⟩
  limits : ledger.terms.limits = ⟨config.keysPerPage, config.pages⟩
  features : ∀ feature, ledger.terms.rules.isEnabled feature = true ↔ feature ∈ config.features

theorem founds_ledger (config : Config) : config.Founds config.ledger where
  empty key := by simp [ledger, Ledger.empty, Ledger.find?_eq]
  fees := rfl
  limits := rfl
  features := Rules.isEnabled_ofFeatures config.features

/-! ## Reading settings -/

theorem section?_eq {document : Table} {name : String} {keys : List String}
    (h : ∀ value ∈ document.lookup name, value.entries?.isSome = true) :
    Config.section? keys document name = some (keys.map (document.setting? name)) := by
  unfold section? Table.setting?
  cases hvalue : document.lookup name with
  | none => rfl
  | some value =>
      have hentries := h value hvalue
      cases value with
      | table | inline => rfl
      | _ => cases hentries

theorem word?_ofWord (word : UInt64) : word? (ofWord word) = some word := by
  simp [word?, ofWord]

theorem texts?_ofTexts (texts : List String) : texts? (ofTexts texts) = some texts := by
  induction texts with
  | nil => rfl
  | cons text texts ih =>
      simp only [texts?, ofTexts, List.map_cons, List.mapM_cons] at ih ⊢
      simp [text?, ih]

/-- A setting is read back if its values are. -/
theorem setting?_map {α : Type} {read : Value → Option α} {write : α → Value}
    (h : ∀ value, read (write value) = some value) (named : Option α) :
    setting? read (named.map write) = some named := by
  cases named with
  | none => rfl
  | some value => simp [setting?, h]

theorem Overrides.NamedBy.ofDocument? {overrides : Overrides} {document : Table}
    (h : overrides.NamedBy document) : Overrides.ofDocument? document = some overrides := by
  have hsection : ∀ {name keys}, name ∈ ["fees", "rules", "directory", "service"] →
      Config.section? keys document name = some (keys.map (document.setting? name)) :=
    fun hname => section?_eq (h.sections _ hname)
  have hflag : ∀ value, flag? (.boolean value) = some value := fun _ => rfl
  simp [Overrides.ofDocument?, hsection, h.baseFee, h.reserveBase, h.reserveIncrement,
    h.featureNames, h.keysPerPage, h.pages, h.haltOnInternal, setting?_map word?_ofWord,
    setting?_map texts?_ofTexts, setting?_map hflag]

/-! ## Replacing settings -/

/-- Either all names are names of features, or the first that is not is reported. -/
theorem featuresNamed_cases (names : List String) :
    (∃ features, featuresNamed names = .ok features ∧ features.map Feature.name = names) ∨
      ∃ (known : List Feature) (name : String) (rest : List String),
        featuresNamed names = .error (.unknownFeature name) ∧
          names = known.map Feature.name ++ name :: rest ∧
          ∀ feature : Feature, feature.name ≠ name := by
  induction names with
  | nil => exact .inl ⟨[], rfl, rfl⟩
  | cons name names ih =>
      cases hname : Feature.ofName? name with
      | none =>
          have hread : featuresNamed (name :: names) = .error (.unknownFeature name) := by
            simp [featuresNamed, hname]
          exact .inr ⟨[], name, names, hread, rfl, Feature.ofName?_eq_none hname⟩
      | some feature =>
          have hfeature := Feature.name_of_ofName? hname
          have hread : featuresNamed (name :: names) =
              (featuresNamed names).map (feature :: ·) := by
            cases hrest : featuresNamed names <;> simp [featuresNamed, hname, hrest] <;> rfl
          rcases ih with ⟨features, hrest, hnames⟩ | ⟨known, other, rest, hrest, hnames, hunknown⟩
          · exact .inl ⟨feature :: features, by rw [hread, hrest]; rfl, by simp [hfeature, hnames]⟩
          · exact .inr ⟨feature :: known, other, rest, by rw [hread, hrest]; rfl,
              by simp [hfeature, hnames], hunknown⟩

theorem Overrides.yields_override (overrides : Overrides) :
    overrides.Yields (override overrides) := by
  unfold override
  cases hnames : overrides.featureNames with
  | none => exact .config rfl rfl rfl (by rw [hnames]; rfl) rfl rfl rfl
  | some names =>
      rcases featuresNamed_cases names with
        ⟨features, hread, hfeatures⟩ | ⟨known, name, rest, hread, hfeatures, hunknown⟩
      · simp only [hread]
        exact .config rfl rfl rfl (by rw [hnames]; exact hfeatures) rfl rfl rfl
      · simp only [hread]
        exact .unknownFeature (by rw [hnames, hfeatures]) hunknown

/-! ## Reading files -/

/-- A document that names settings comes to these settings, whatever else it has and in whatever
order; a layout is a text of its document; and ledgers are founded on what is configured. -/
theorem parse_overrides {overrides : Overrides} {document : Table}
    (h : overrides.NamedBy document) :
    (∀ text, Toml.parse text = some document → overrides.Yields (parse text)) ∧
      (∀ layout : Toml.Layout, layout.Proper → layout.table = document →
        overrides.Yields (parse layout.text)) ∧
      ∀ config : Config, config.Founds config.ledger := by
  have hread : ∀ text, Toml.parse text = some document → overrides.Yields (parse text) := by
    intro text htext
    have hparse : parse text = override overrides := by
      simp [parse, htext, ofDocument, h.ofDocument?]
    rw [hparse]
    exact overrides.yields_override
  refine ⟨hread, fun layout hproper htable => hread _ ?_, founds_ledger⟩
  rw [Toml.parse_text hproper, htable]

/-- Settings among other values, with sections and keys in another order. -/
def scattered : Toml.Layout where
  values := [("title", .string "say \"when\"")]
  sections := [("service", [("since", .dateTime), ("halt_on_internal", .boolean false)]),
    ("fees", [("increment", ofWord 100), ("burst", .inline [("max", .float)]),
      ("reserve", ofWord 1000)]),
    ("odd name", []),
    ("rules", [("features", ofTexts ["MultiSignReserve", "MultiSignReserve"])])]

theorem scattered_proper : scattered.Proper where
  distinct := by decide
  distinct_section := by decide
  written := by simpa [scattered] using .string _
  written_section := by
    have hburst : (Value.inline [("max", .float)]).Written 0 :=
      .inline (by decide) (by decide) (by simpa using .float)
    have hfeatures : (ofTexts ["MultiSignReserve", "MultiSignReserve"]).Written 0 :=
      .array (by decide) (by simpa using .string _)
    simp only [scattered, List.forall_mem_cons, List.not_mem_nil, IsEmpty.forall_iff, implies_true,
      and_true, true_and]
    exact ⟨⟨.dateTime, .boolean _⟩, ⟨.integer (by decide) (by decide), hburst,
      .integer (by decide) (by decide)⟩, hfeatures⟩

theorem parse_overrides_scattered :
    let overrides : Overrides :=
      { baseFee := none, reserveBase := some 1000, reserveIncrement := some 100,
        featureNames := some ["MultiSignReserve", "MultiSignReserve"], keysPerPage := none,
        pages := none, haltOnInternal := some false }
    overrides.NamedBy scattered.table ∧ scattered.Proper ∧
      overrides.Yields (parse scattered.text) := by
  intro overrides
  have hnamed : overrides.NamedBy scattered.table := by
    constructor
    case sections => decide
    all_goals rfl
  exact ⟨hnamed, scattered_proper, (parse_overrides hnamed).2.1 scattered scattered_proper rfl⟩

end Config

end Cosign
