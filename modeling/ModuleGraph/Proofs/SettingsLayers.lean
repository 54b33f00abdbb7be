/-
# Settings, one by one

Settings are loaded from three layers, and each of them is loaded on its own: it is what its
variable says, if that is set, else what the file says, if it has it, else the default
(`Setting.loaded_by_layer`). For this a layer is taken as a table of sections, each a table of
settings (`Setting.Layer`); laying one over another and putting the whole in order keep that
form, and what comes out is looked up setting by setting.

Key definitions: `Setting`, `Setting.inTable?`, `Setting.inEnvironment?`, `Setting.Accepts`,
`Setting.WellTyped`, `Setting.Layer`.
Key theorems: `Setting.Layer.overlaid`, `Setting.Layer.exists_read`, `Setting.layer_environment`,
`Setting.loaded_by_layer`.
-/
import Mathlib
import ModuleGraph.Proofs.Documents
import ModuleGraph.Proofs.TomlNames
import ModuleGraph.Settings.Store

namespace ModuleGraph

open Document

/-- One of the settings. -/
inductive Setting where
  | version
  | dependencyRoot
  | declarationSuffix
  | declarationModel
  | sourceType
  | errorRecovery
  | allowImportExportEverywhere
  | dialect
  | level
  | ansi
  deriving DecidableEq

namespace Setting

/-! ### Where settings stand -/

/-- The section that a setting stands in. -/
def section? : Setting → Option String
  | version => none
  | dependencyRoot | declarationSuffix => some "resolver"
  | declarationModel => some "loader"
  | sourceType | errorRecovery | allowImportExportEverywhere | dialect => some "parser"
  | level | ansi => some "logging"

def name : Setting → String
  | version => "version"
  | dependencyRoot => "dependency_root"
  | declarationSuffix => "declaration_suffix"
  | declarationModel => "declaration_model"
  | sourceType => "source_type"
  | errorRecovery => "error_recovery"
  | allowImportExportEverywhere => "allow_import_export_everywhere"
  | dialect => "dialect"
  | level => "level"
  | ansi => "ansi"

/-- The names on the way to a setting. -/
def path (k : Setting) : List String := k.section?.toList ++ [k.name]

/-- The variable that sets it, such as `DECLINK_LOGGING__LEVEL`. -/
def variableName (k : Setting) : String :=
  String.ofList ("DECLINK_".toList ++
    (("__".toList.intercalate (k.path.map String.toList)).map Char.toUpper))

theorem path?_variableName (k : Setting) : Variable.path? k.variableName = some k.path := by
  cases k <;> decide +kernel

theorem variableName_inj {k k' : Setting} (h : k.variableName = k'.variableName) : k = k' := by
  have hpath : k.path = k'.path := by
    have hpaths := path?_variableName k
    rw [h, path?_variableName k'] at hpaths
    exact (Option.some.inj hpaths).symm
  revert hpath
  cases k <;> cases k' <;> decide

/-! ### What settings are -/

def Value : Setting → Type
  | version => Nat
  | dependencyRoot | declarationSuffix | level => String
  | declarationModel | ansi => Bool
  | sourceType => Option Syntax.SourceType
  | errorRecovery | allowImportExportEverywhere => Option Bool
  | dialect => Option Syntax.Dialect

def get : (k : Setting) → Settings → k.Value
  | version, s => s.version
  | dependencyRoot, s => s.resolver.dependencyRoot
  | declarationSuffix, s => s.resolver.declarationSuffix
  | declarationModel, s => s.loader.declarationModel
  | sourceType, s => s.parser.sourceType
  | errorRecovery, s => s.parser.errorRecovery
  | allowImportExportEverywhere, s => s.parser.allowImportExportEverywhere
  | dialect, s => s.parser.dialect
  | level, s => s.logging.level
  | ansi, s => s.logging.ansi

/-- The reader of a setting's type. -/
def reader : (k : Setting) → Reader k.Value
  | version => natural32
  | dependencyRoot | declarationSuffix | level => string
  | declarationModel | ansi => truth
  | sourceType => optional (variant .settings sourceTypes)
  | errorRecovery | allowImportExportEverywhere => optional truth
  | dialect => optional (variant .settings dialects)

/-- Settings are no more than their values. -/
theorem ext_get {s s' : Settings} (h : ∀ k : Setting, k.get s = k.get s') : s = s' := by
  obtain ⟨v, ⟨d, u⟩, ⟨m⟩, ⟨t, e, a, l⟩, ⟨f, n⟩⟩ := s
  obtain ⟨v', ⟨d', u'⟩, ⟨m'⟩, ⟨t', e', a', l'⟩, ⟨f', n'⟩⟩ := s'
  have hversion : v = v' := h version
  have hresolver : d = d' ∧ u = u' := ⟨h dependencyRoot, h declarationSuffix⟩
  have hloader : m = m' := h declarationModel
  have hparser : t = t' ∧ e = e' ∧ a = a' ∧ l = l' :=
    ⟨h sourceType, h errorRecovery, h allowImportExportEverywhere, h dialect⟩
  have hlogging : f = f' ∧ n = n' := ⟨h level, h ansi⟩
  simp [hversion, hresolver, hloader, hparser, hlogging]

/-- A document that is well typed for a setting. Settings are no tables: a variant might be read
from one that holds nothing, but there is no such value in a file or a variable. -/
def Accepts (k : Setting) (v : Document) : Prop :=
  (∀ entries, v ≠ table entries) ∧ ∃ x, k.reader v = .ok x

/-! ### Layers -/

variable {entries under above : List (String × Document)} {k : Setting} {v : Document}

/-- The table that a setting stands in: that of its section, or the whole. -/
def tableOf (k : Setting) (entries : List (String × Document)) : List (String × Document) :=
  match k.section? with
  | none => entries
  | some s => match Table.get? entries s with
    | some (table inner) => inner
    | _ => []

/-- What a table of sections has for a setting. -/
def inTable? (k : Setting) (entries : List (String × Document)) : Option Document :=
  Table.get? (k.tableOf entries) k.name

/-- A table of sections in which every setting that is there is well typed. What else is there
does not matter. -/
structure WellTyped (entries : List (String × Document)) : Prop where
  sections : ∀ (k : Setting) s, k.section? = some s → ∀ v, Table.get? entries s = some v →
    ∃ inner, v = table inner
  settings : ∀ (k : Setting) v, k.inTable? entries = some v → k.Accepts v

/-- A layer of settings: one that is well typed, with nothing in it twice. -/
structure Layer (entries : List (String × Document)) : Prop extends WellTyped entries where
  names : (Table.keys entries).Nodup
  inner : ∀ k : Setting, (Table.keys (k.tableOf entries)).Nodup

theorem nodup_keys_of_distinct (h : (table entries).Distinct) : (Table.keys entries).Nodup := by
  cases h with
  | scalar _ htable => exact absurd rfl (htable _)
  | table names _ => exact names

theorem WellTyped.layer (h : WellTyped entries) (hdistinct : (table entries).Distinct) :
    Layer entries where
  toWellTyped := h
  names := nodup_keys_of_distinct hdistinct
  inner k := by
    unfold tableOf
    split
    · exact nodup_keys_of_distinct hdistinct
    · next s hs =>
      split
      · next inner hinner =>
        cases hdistinct with
        | scalar _ htable => exact absurd rfl (htable _)
        | table _ hentries => exact nodup_keys_of_distinct (hentries _ (Table.mem_of_get? hinner))
      · exact List.nodup_nil

theorem inTable?_nil (k : Setting) : k.inTable? [] = none := by
  cases k <;> rfl

theorem layer_nil : Layer [] :=
  WellTyped.layer ⟨fun _ _ _ _ hv => by simp at hv, fun k v hv => by simp [inTable?_nil] at hv⟩
    (.table List.nodup_nil fun _ h => (List.not_mem_nil h).elim)

theorem Accepts.not_list (h : k.Accepts v) (items : List Document) : v ≠ list items := by
  rintro rfl
  obtain ⟨-, x, hx⟩ := h
  cases k <;> cases hx

theorem Accepts.overlaid (h : k.Accepts v) (below : Document) : overlaid below v = v := by
  have htable := h.1
  cases v <;> first | rfl | exact absurd rfl (htable _)

theorem Accepts.sorted (h : k.Accepts v) : sorted v = v := by
  have htable := h.1
  have hlist := h.not_list
  cases v <;> first | rfl | exact absurd rfl (htable _) | exact absurd rfl (hlist _)

theorem tableOf_overlaidAll (hunder : WellTyped under) (habove : Layer above) (k : Setting) :
    k.tableOf (overlaidAll under above) = overlaidAll (k.tableOf under) (k.tableOf above) := by
  unfold tableOf
  cases hs : k.section? with
  | none => rfl
  | some s =>
    simp only
    rw [get?_overlaidAll s habove.names]
    cases ha : Table.get? above s with
    | none =>
      cases hu : Table.get? under s with
      | none => rfl
      | some u =>
        obtain ⟨inner, rfl⟩ := hunder.sections k s hs u hu
        rfl
    | some a =>
      obtain ⟨inner, rfl⟩ := habove.sections k s hs a ha
      cases hu : Table.get? under s with
      | none => rfl
      | some u =>
        obtain ⟨innerUnder, rfl⟩ := hunder.sections k s hs u hu
        rfl

/-- **One layer over another is a layer,** with the settings of the one above and, where it has
none, of the one below. -/
theorem inTable?_overlaidAll (hunder : WellTyped under) (habove : Layer above) (k : Setting) :
    k.inTable? (overlaidAll under above) = (k.inTable? above).or (k.inTable? under) := by
  have haccepts := habove.settings k
  unfold inTable? at haccepts ⊢
  rw [tableOf_overlaidAll hunder habove, get?_overlaidAll _ (habove.inner k)]
  cases hget : Table.get? (k.tableOf above) k.name with
  | none => rfl
  | some v => simp [(haccepts v hget).overlaid]

theorem Layer.overlaid (hunder : Layer under) (habove : Layer above) :
    Layer (overlaidAll under above) where
  sections k s hs v hv := by
    rw [get?_overlaidAll s habove.names] at hv
    cases ha : Table.get? above s with
    | none => exact hunder.sections k s hs v (by simpa [ha] using hv)
    | some a =>
      obtain ⟨inner, rfl⟩ := habove.sections k s hs a ha
      rw [ha] at hv
      obtain rfl := Option.some.inj hv
      unfold Document.overlaid
      split <;> exact ⟨_, rfl⟩
  settings k v hv := by
    rw [inTable?_overlaidAll hunder.toWellTyped habove] at hv
    rcases Option.or_eq_some_iff.1 hv with hv | ⟨-, hv⟩
    · exact habove.settings k v hv
    · exact hunder.settings k v hv
  names := nodup_keys_overlaidAll hunder.names
  inner k := by
    rw [tableOf_overlaidAll hunder.toWellTyped habove]
    exact nodup_keys_overlaidAll (hunder.inner k)

theorem tableOf_sortedEntries (h : Layer entries) (k : Setting) :
    k.tableOf (sortedEntries entries) = sortedEntries (k.tableOf entries) := by
  unfold tableOf
  cases hs : k.section? with
  | none => rfl
  | some s =>
    simp only
    rw [get?_sortedEntries s h.names]
    cases hget : Table.get? entries s with
    | none => exact sortedEntries_nil.symm
    | some v =>
      obtain ⟨inner, rfl⟩ := h.sections k s hs v hget
      rfl

theorem inTable?_sortedEntries (h : Layer entries) (k : Setting) :
    k.inTable? (sortedEntries entries) = k.inTable? entries := by
  have haccepts := h.settings k
  unfold inTable? at haccepts ⊢
  rw [tableOf_sortedEntries h, get?_sortedEntries _ (h.inner k)]
  cases hget : Table.get? (k.tableOf entries) k.name with
  | none => rfl
  | some v => simp [(haccepts v hget).sorted]

theorem Layer.sorted (h : Layer entries) : Layer (sortedEntries entries) where
  sections k s hs v hv := by
    rw [get?_sortedEntries s h.names] at hv
    obtain ⟨w, hw, rfl⟩ := Option.map_eq_some_iff.1 hv
    obtain ⟨inner, rfl⟩ := h.sections k s hs w hw
    exact ⟨_, rfl⟩
  settings k v hv := h.settings k v (inTable?_sortedEntries h k ▸ hv)
  names := nodup_keys_sortedEntries h.names
  inner k := by
    rw [tableOf_sortedEntries h]
    exact nodup_keys_sortedEntries (h.inner k)

/-! ### Reading a layer -/

section

variable {ρ : Type} {fields : List (Document.Field ρ)} {start r : ρ} {typeName sectionName : String}

/-- Fields that are settings of a section, each read as the setting is. -/
def OfSection (sectionName : String) (fields : List (Document.Field ρ)) : Prop :=
  ∀ f ∈ fields, ∃ (k : Setting) (set : k.Value → ρ → ρ), k.section? = some sectionName ∧
    f = .of k.name k.reader set

theorem tableOf_of_section (hs : k.section? = some sectionName) {inner : List (String × Document)}
    (hinner : Table.get? entries sectionName = some (table inner)) : k.tableOf entries = inner := by
  simp [tableOf, hs, hinner]

theorem inTable?_of_no_section (hs : k.section? = some sectionName)
    (hnone : Table.get? entries sectionName = none) : k.inTable? entries = none := by
  simp [inTable?, tableOf, hs, hnone]

theorem exists_change_of_accepts (h : k.Accepts v) (set : k.Value → ρ → ρ) :
    ∃ change, (Document.Field.of k.name k.reader set).read v = .ok change := by
  obtain ⟨-, x, hx⟩ := h
  exact ⟨set x, by simp [Document.Field.of, hx, Except.map]⟩

/-- A section of a layer is read setting by setting. -/
theorem Layer.exists_section (h : Layer entries) (hfields : OfSection sectionName fields)
    (typeName : String) (start : ρ) (hk : k.section? = some sectionName)
    (hv : Table.get? entries sectionName = some v) :
    ∃ r, record .settings typeName fields start v = .ok r ∧
      ∀ (k : Setting) (view : ρ → k.Value), k.section? = some sectionName →
        Views fields k.name k.reader view →
          readOr k.reader (view start) (k.inTable? entries) = .ok (view r) := by
  obtain ⟨inner, rfl⟩ := h.sections k sectionName hk v hv
  have htable (k' : Setting) (hk' : k'.section? = some sectionName) : k'.tableOf entries = inner :=
    tableOf_of_section hk' hv
  have hdefaults : ∀ f ∈ fields, f.required = false := by
    intro f hf
    obtain ⟨k', set, -, rfl⟩ := hfields f hf
    rfl
  have hok : ∀ f ∈ fields, ∀ w, Table.get? inner f.name = some w →
      ∃ change, f.read w = .ok change := by
    intro f hf w hw
    obtain ⟨k', set, hk', rfl⟩ := hfields f hf
    exact exists_change_of_accepts (h.settings k' w (by rwa [inTable?, htable k' hk'])) set
  obtain ⟨r, hr, hviews⟩ :=
    exists_record .settings typeName start hdefaults (htable k hk ▸ h.inner k) hok
  refine ⟨r, hr, fun k' view hk' hview => ?_⟩
  rw [inTable?, htable k' hk']
  exact hviews hview

theorem Layer.readOr_section (h : Layer entries) (k : Setting)
    (hfields : OfSection sectionName fields)
    (hread : readOr (record .settings typeName fields start) start
      (Table.get? entries sectionName) = .ok r)
    (hk : k.section? = some sectionName) (view : ρ → k.Value)
    (hview : Views fields k.name k.reader view) :
    readOr k.reader (view start) (k.inTable? entries) = .ok (view r) := by
  cases hget : Table.get? entries sectionName with
  | none =>
    rw [hget] at hread
    obtain rfl : start = r := by simpa [readOr] using hread
    rw [inTable?_of_no_section hk hget]
    rfl
  | some v =>
    obtain ⟨r', hr', hsettings⟩ := h.exists_section hfields typeName start hk hget
    obtain rfl : r' = r := by simpa [hget, readOr, hr'] using hread
    exact hsettings k view hk hview

end

theorem ofSection_resolver : OfSection "resolver" resolverFields := by
  simp only [OfSection, resolverFields, List.forall_mem_cons]
  exact ⟨⟨dependencyRoot, _, rfl, rfl⟩, ⟨declarationSuffix, _, rfl, rfl⟩, by simp⟩

theorem ofSection_loader : OfSection "loader" loaderFields := by
  simp only [OfSection, loaderFields, List.forall_mem_cons]
  exact ⟨⟨declarationModel, _, rfl, rfl⟩, by simp⟩

theorem ofSection_overrides : OfSection "parser" (overridesFields .settings) := by
  simp only [OfSection, overridesFields, List.forall_mem_cons]
  exact ⟨⟨sourceType, _, rfl, rfl⟩, ⟨errorRecovery, _, rfl, rfl⟩,
    ⟨allowImportExportEverywhere, _, rfl, rfl⟩, ⟨dialect, _, rfl, rfl⟩, by simp⟩

theorem ofSection_logging : OfSection "logging" loggingFields := by
  simp only [OfSection, loggingFields, List.forall_mem_cons]
  exact ⟨⟨level, _, rfl, rfl⟩, ⟨ansi, _, rfl, rfl⟩, by simp⟩

theorem Layer.exists_change (h : Layer entries) :
    ∀ f ∈ Settings.fields .settings, ∀ v, Table.get? entries f.name = some v →
      ∃ change, f.read v = .ok change := by
  have hsection {ρ : Type} {fields : List (Document.Field ρ)} {sectionName : String}
      (hfields : OfSection sectionName fields) (typeName : String) (start : ρ)
      (set : ρ → Settings → Settings) (k : Setting) (hk : k.section? = some sectionName) :
      ∀ v, Table.get? entries sectionName = some v → ∃ change,
        (Document.Field.of sectionName (record .settings typeName fields start) set).read v =
          .ok change := by
    intro v hv
    obtain ⟨r, hr, -⟩ := h.exists_section hfields typeName start hk hv
    exact ⟨set r, by simp [Document.Field.of, hr, Except.map]⟩
  simp only [Settings.fields, List.forall_mem_cons]
  exact ⟨fun v hv => exists_change_of_accepts (h.settings version v hv) _,
    hsection ofSection_resolver _ _ _ dependencyRoot rfl,
    hsection ofSection_loader _ _ _ declarationModel rfl,
    hsection ofSection_overrides _ _ _ dialect rfl,
    hsection ofSection_logging _ _ _ level rfl, by simp⟩

theorem views_resolver : Views (Settings.fields .settings) "resolver" (resolverReader .settings)
    Settings.resolver :=
  .there (by decide) (fun _ _ => rfl) <| .here (fun _ _ => rfl) <|
    .cons (by decide) (fun _ _ => rfl) <| .cons (by decide) (fun _ _ => rfl) <|
    .cons (by decide) (fun _ _ => rfl) .nil

theorem views_loader : Views (Settings.fields .settings) "loader" (loaderReader .settings)
    Settings.loader :=
  .there (by decide) (fun _ _ => rfl) <| .there (by decide) (fun _ _ => rfl) <|
    .here (fun _ _ => rfl) <| .cons (by decide) (fun _ _ => rfl) <|
    .cons (by decide) (fun _ _ => rfl) .nil

theorem views_overrides : Views (Settings.fields .settings) "parser" (overridesReader .settings)
    Settings.parser :=
  .there (by decide) (fun _ _ => rfl) <| .there (by decide) (fun _ _ => rfl) <|
    .there (by decide) (fun _ _ => rfl) <| .here (fun _ _ => rfl) <|
    .cons (by decide) (fun _ _ => rfl) .nil

theorem views_logging : Views (Settings.fields .settings) "logging" (loggingReader .settings)
    Settings.logging :=
  .there (by decide) (fun _ _ => rfl) <| .there (by decide) (fun _ _ => rfl) <|
    .there (by decide) (fun _ _ => rfl) <| .there (by decide) (fun _ _ => rfl) <|
    .here (fun _ _ => rfl) .nil

theorem views_version : Views (Settings.fields .settings) "version" natural32 Settings.version :=
  .here (fun _ _ => rfl) <| .cons (by decide) (fun _ _ => rfl) <|
    .cons (by decide) (fun _ _ => rfl) <| .cons (by decide) (fun _ _ => rfl) <|
    .cons (by decide) (fun _ _ => rfl) .nil

/-- **A layer is read setting by setting:** each is what the layer has for it, or its default. -/
theorem Layer.exists_read (h : Layer entries) :
    ∃ s, Settings.reader .settings (table entries) = .ok s ∧
      ∀ k : Setting, readOr k.reader (k.get {}) (k.inTable? entries) = .ok (k.get s) := by
  have hdefaults : ∀ f ∈ Settings.fields .settings, f.required = false := by
    simp [Settings.fields, Document.Field.of]
  obtain ⟨s, hs, hviews⟩ := exists_record .settings "Settings" {} hdefaults h.names h.exists_change
  refine ⟨s, hs, fun k => ?_⟩
  have hresolver : readOr (resolverReader .settings) {} (Table.get? entries "resolver") =
    .ok s.resolver := hviews views_resolver
  have hloader : readOr (loaderReader .settings) {} (Table.get? entries "loader") =
    .ok s.loader := hviews views_loader
  have hparser : readOr (overridesReader .settings) {} (Table.get? entries "parser") =
    .ok s.parser := hviews views_overrides
  have hlogging : readOr (loggingReader .settings) {} (Table.get? entries "logging") =
    .ok s.logging := hviews views_logging
  cases k with
  | version => exact hviews views_version
  | dependencyRoot =>
    have hview : Views resolverFields dependencyRoot.name
        dependencyRoot.reader (·.dependencyRoot) :=
      .here (fun _ _ => rfl) <| .cons (by decide) (fun _ _ => rfl) .nil
    exact h.readOr_section dependencyRoot ofSection_resolver hresolver rfl _ hview
  | declarationSuffix =>
    have hview : Views resolverFields declarationSuffix.name
        declarationSuffix.reader (·.declarationSuffix) :=
      .there (by decide) (fun _ _ => rfl) <| .here (fun _ _ => rfl) .nil
    exact h.readOr_section declarationSuffix ofSection_resolver hresolver rfl _ hview
  | declarationModel =>
    have hview : Views loaderFields declarationModel.name
        declarationModel.reader (·.declarationModel) :=
      .here (fun _ _ => rfl) .nil
    exact h.readOr_section declarationModel ofSection_loader hloader rfl _ hview
  | sourceType =>
    have hview : Views (overridesFields .settings) sourceType.name
        sourceType.reader (·.sourceType) :=
      .here (fun _ _ => rfl) <| .cons (by decide) (fun _ _ => rfl) <|
        .cons (by decide) (fun _ _ => rfl) <| .cons (by decide) (fun _ _ => rfl) .nil
    exact h.readOr_section sourceType ofSection_overrides hparser rfl _ hview
  | errorRecovery =>
    have hview : Views (overridesFields .settings) errorRecovery.name
        errorRecovery.reader (·.errorRecovery) :=
      .there (by decide) (fun _ _ => rfl) <| .here (fun _ _ => rfl) <|
        .cons (by decide) (fun _ _ => rfl) <| .cons (by decide) (fun _ _ => rfl) .nil
    exact h.readOr_section errorRecovery ofSection_overrides hparser rfl _ hview
  | allowImportExportEverywhere =>
    have hview : Views (overridesFields .settings) allowImportExportEverywhere.name
        allowImportExportEverywhere.reader (·.allowImportExportEverywhere) :=
      .there (by decide) (fun _ _ => rfl) <| .there (by decide) (fun _ _ => rfl) <|
        .here (fun _ _ => rfl) <| .cons (by decide) (fun _ _ => rfl) .nil
    exact h.readOr_section allowImportExportEverywhere ofSection_overrides hparser rfl _ hview
  | dialect =>
    have hview : Views (overridesFields .settings) dialect.name dialect.reader (·.dialect) :=
      .there (by decide) (fun _ _ => rfl) <| .there (by decide) (fun _ _ => rfl) <|
        .there (by decide) (fun _ _ => rfl) <| .here (fun _ _ => rfl) .nil
    exact h.readOr_section dialect ofSection_overrides hparser rfl _ hview
  | level =>
    have hview : Views loggingFields level.name level.reader (·.level) :=
      .here (fun _ _ => rfl) <| .cons (by decide) (fun _ _ => rfl) .nil
    exact h.readOr_section level ofSection_logging hlogging rfl _ hview
  | ansi =>
    have hview : Views loggingFields ansi.name ansi.reader (·.ansi) :=
      .there (by decide) (fun _ _ => rfl) <| .here (fun _ _ => rfl) .nil
    exact h.readOr_section ansi ofSection_logging hlogging rfl _ hview

/-! ### The layer of the environment -/

/-- The layer of one setting. -/
def single (k : Setting) (v : Document) : List (String × Document) :=
  match k.section? with
  | none => [(k.name, v)]
  | some s => [(s, table [(k.name, v)])]

theorem name_ne_section {k k' : Setting} {s : String} (hk : k.section? = none)
    (hs : k'.section? = some s) : k.name ≠ s := by
  rintro rfl
  revert hk hs
  cases k <;> cases k' <;> decide

theorem layerOf_variableName (k : Setting) (text : String) :
    Variable.layerOf k.variableName text = table (k.single (Variable.read text)) := by
  rw [Variable.layerOf, path?_variableName]
  cases k <;> rfl

theorem inTable?_single (k k' : Setting) (v : Document) :
    k'.inTable? (k.single v) = if k = k' then some v else none := by
  cases k <;> cases k' <;> rfl

theorem layer_single (h : k.Accepts v) : Layer (k.single v) := by
  have hwell : WellTyped (k.single v) := by
    refine ⟨fun k' s hs w hw => ?_, fun k' w hw => ?_⟩
    · unfold single at hw
      split at hw
      · next hk =>
        have hne : k.name ≠ s := name_ne_section hk hs
        simp [Table.get?, hne] at hw
      · next s' hk =>
        by_cases hs' : s' = s
        · simp only [Table.get?, hs', if_true, Option.some.injEq] at hw
          exact ⟨_, hw.symm⟩
        · simp [Table.get?, hs'] at hw
    · rw [inTable?_single] at hw
      split at hw
      · next hk =>
        obtain rfl := Option.some.inj hw
        exact hk ▸ h
      · cases hw
  refine hwell.layer ?_
  have hv : v.Distinct := .scalar h.not_list h.1
  have htable (n : String) {w : Document} (hw : w.Distinct) : (table [(n, w)]).Distinct :=
    .table (by simp [Table.keys]) (by simpa using hw)
  unfold single
  split
  · exact htable _ hv
  · exact htable _ (htable _ hv)

/-- What the environment has for a setting: the value of the last variable of its name. -/
def inEnvironment? (k : Setting) (env : Environment) : Option Document :=
  (Table.get? env.reverse k.variableName).map Variable.read

/-- An environment in which every variable that sets something sets a setting, to a value of its
type. -/
def WellSet (env : Environment) : Prop :=
  ∀ v ∈ env, Variable.path? v.1 = none ∨
    ∃ k : Setting, v.1 = k.variableName ∧ k.Accepts (Variable.read v.2)

/-- **An environment is a layer,** with the settings that its variables set. -/
theorem layer_environment {env : Environment} (h : WellSet env) :
    ∃ entries, Variable.layer env = table entries ∧ Layer entries ∧
      ∀ k : Setting, k.inTable? entries = k.inEnvironment? env := by
  induction env using List.reverseRecOn with
  | nil => exact ⟨[], rfl, layer_nil, inTable?_nil⟩
  | append_singleton env v ih =>
    obtain ⟨entries, hentries, hlayer, hsettings⟩ := ih fun w hw => h w (by simp [hw])
    have hfold : Variable.layer (env ++ [v]) =
        (table entries).overlaid (Variable.layerOf v.1 v.2) := by
      rw [← hentries, Variable.layer, List.foldl_append]
      rfl
    rw [hfold]
    rcases h v (by simp) with hpath | ⟨k₀, hname, haccepts⟩
    · have hnothing : (table entries).overlaid (Variable.layerOf v.1 v.2) = table entries := by
        simp [Variable.layerOf, hpath, Document.overlaid, overlaidAll]
      refine ⟨entries, hnothing, hlayer, fun k => ?_⟩
      have hne : v.1 ≠ k.variableName := by
        intro he
        simp [he, path?_variableName] at hpath
      rw [hsettings]
      simp [inEnvironment?, Table.get?, hne]
    · have hsingle := layer_single haccepts
      rw [hname, layerOf_variableName]
      refine ⟨overlaidAll entries (k₀.single (Variable.read v.2)), rfl, hlayer.overlaid hsingle, ?_⟩
      intro k
      rw [inTable?_overlaidAll hlayer.toWellTyped hsingle, inTable?_single, hsettings]
      by_cases hk : k₀ = k
      · simp [hk, hname, inEnvironment?, Table.get?]
      · have hne : k₀.variableName ≠ k.variableName := fun he => hk (variableName_inj he)
        simp [hk, hname, inEnvironment?, Table.get?, hne]

/-! ### The layer of the defaults -/

/-- The entries of settings that are written down, by the document for their version. -/
def entriesOf (s : Settings) (version : Document) : List (String × Document) :=
  ("version", version) :: s.sections.map fun p => (p.1, table p.2)

/-- How the value of a setting is written, if it is. -/
def written (version : Document) : (k : Setting) → k.Value → Option Document
  | .version, _ => some version
  | dependencyRoot, v | declarationSuffix, v | level, v => some (text v)
  | declarationModel, v | ansi, v => some (bool v)
  | sourceType, v => v.map fun t => text t.id
  | errorRecovery, v | allowImportExportEverywhere, v => v.map bool
  | dialect, v => v.map fun d => text d.id

theorem inTable?_entriesOf (s : Settings) (n : Document) (k : Setting) :
    k.inTable? (entriesOf s n) = k.written n (k.get s) := by
  obtain ⟨v, r, l, ⟨t, e, a, d⟩, g⟩ := s
  cases k with
  | sourceType | errorRecovery | allowImportExportEverywhere | dialect =>
    cases t <;> cases e <;> cases a <;> cases d <;> rfl
  | _ => rfl

theorem readOr_written {s : Settings} {n : Document} (hn : natural32 n = .ok s.version)
    (k : Setting) : readOr k.reader (k.get {}) (k.written n (k.get s)) = .ok (k.get s) := by
  obtain ⟨v, r, l, ⟨t, e, a, d⟩, g⟩ := s
  cases k with
  | version => exact hn
  | sourceType => rcases t with _ | _ | _ <;> rfl
  | errorRecovery => cases e <;> rfl
  | allowImportExportEverywhere => cases a <;> rfl
  | dialect => rcases d with _ | _ | _ | _ <;> rfl
  | _ => rfl

theorem accepts_written {s : Settings} {n : Document} (hn : natural32 n = .ok s.version)
    (hv : k.written n (k.get s) = some v) : k.Accepts v := by
  refine ⟨?_, k.get s, by simpa [hv, readOr] using readOr_written hn k⟩
  rintro entries rfl
  obtain ⟨v, r, l, ⟨t, e, a, d⟩, g⟩ := s
  cases k with
  | version =>
    obtain rfl := Option.some.inj hv
    cases hn
  | sourceType => cases t <;> cases hv
  | errorRecovery => cases e <;> cases hv
  | allowImportExportEverywhere => cases a <;> cases hv
  | dialect => cases d <;> cases hv
  | _ => cases hv

theorem wellTyped_entriesOf {s : Settings} {n : Document} (hn : natural32 n = .ok s.version) :
    WellTyped (entriesOf s n) where
  sections k s' hs v hv := by
    cases k <;> cases hs <;> exact ⟨_, (Option.some.inj hv).symm⟩
  settings k v hv := accepts_written hn (inTable?_entriesOf s n k ▸ hv)

theorem layer_defaults : Layer (entriesOf {} (.unsigned 1)) where
  toWellTyped := wellTyped_entriesOf rfl
  names := by decide
  inner k := by cases k <;> decide

/-! ### Loading -/

/-- **Layers of settings make settings:** each setting is what the environment says, else what
the file says, else its default. -/
theorem exists_ofLayers {env : Environment} (hfile : Layer entries) (henv : WellSet env) :
    ∃ s, Settings.ofLayers (table entries) env = .ok s ∧ ∀ k : Setting,
      readOr k.reader (k.get {}) ((k.inEnvironment? env).or (k.inTable? entries)) =
        .ok (k.get s) := by
  obtain ⟨above, habove, hlayer, hsettings⟩ := layer_environment henv
  have hunder := layer_defaults.overlaid hfile
  have hall := hunder.overlaid hlayer
  obtain ⟨s, hread, hget⟩ := hall.sorted.exists_read
  refine ⟨s, ?_, fun k => ?_⟩
  · have hlayers : Settings.layers (table entries) env = table (sortedEntries
        (overlaidAll (overlaidAll (entriesOf {} (.unsigned 1)) entries) above)) := by
      rw [Settings.layers, habove]
      rfl
    rw [Settings.ofLayers, hlayers, hread]
  · have hk := hget k
    rw [inTable?_sortedEntries hall, inTable?_overlaidAll hunder.toWellTyped hlayer, hsettings,
      inTable?_overlaidAll layer_defaults.toWellTyped hfile, inTable?_entriesOf,
      ← Option.or_assoc] at hk
    cases hset : (k.inEnvironment? env).or (k.inTable? entries) with
    | some v => simpa [hset, readOr] using hk
    | none =>
      have hdefault := readOr_written (s := {}) (n := .unsigned 1) rfl k
      rw [hset, Option.none_or, hdefault] at hk
      exact hk

/-- What settings are loaded from: a path that leads to a file of TOML in which settings are well
typed, and an environment that sets them to values of their types. -/
structure Sources (tree : FileTree) (current : Place) (path : String) (env : Environment)
    (entries : List (String × Document)) : Prop where
  file : ∃ text, Settings.findFile tree current path = some (.file (some text)) ∧
    Toml.parse? text = some entries
  wellTyped : WellTyped entries
  wellSet : WellSet env

variable {tree : FileTree} {current : Place} {path : String} {env : Environment}

theorem Sources.exists_loadFrom (h : Sources tree current path env entries) :
    ∃ s, Settings.loadFrom tree current path env = .ok s ∧ ∀ k : Setting,
      readOr k.reader (k.get {}) ((k.inEnvironment? env).or (k.inTable? entries)) =
        .ok (k.get s) := by
  obtain ⟨text, hfile, hparse⟩ := h.file
  have hload : Settings.loadFrom tree current path env = Settings.ofLayers (table entries) env := by
    rw [Settings.loadFrom, hfile, Settings.ofFile, hparse]
  rw [hload]
  exact exists_ofLayers (h.wellTyped.layer (Toml.distinct_of_parse? hparse)) h.wellSet

theorem inEnvironment?_append (k changed : Setting) (env : Environment) (value : String) :
    k.inEnvironment? (env ++ [(changed.variableName, value)]) =
      if k = changed then some (Variable.read value) else k.inEnvironment? env := by
  by_cases hk : k = changed
  · simp [hk, inEnvironment?, Table.get?]
  · have hne : changed.variableName ≠ k.variableName := fun he => hk (variableName_inj he).symm
    simp [hk, inEnvironment?, Table.get?, hne]

/-- Settings that differ in one at most. -/
def SameBut (changed : Setting) (s s' : Settings) : Prop := ∀ k ≠ changed, k.get s' = k.get s

/-- **Settings are loaded one by one:** each is what the environment says, else what the file
says, else its default. So a variable that is set besides changes no other setting, and neither
does another file that has the same for all other settings. -/
theorem loaded_by_layer (h : Sources tree current path env entries) :
    ∃ s, Settings.loadFrom tree current path env = .ok s ∧
      (∀ k : Setting, readOr k.reader (k.get {})
        ((k.inEnvironment? env).or (k.inTable? entries)) = .ok (k.get s)) ∧
      (∀ (changed : Setting) value, changed.Accepts (Variable.read value) →
        ∃ s', Settings.loadFrom tree current path (env ++ [(changed.variableName, value)]) =
          .ok s' ∧ changed.reader (Variable.read value) = .ok (changed.get s') ∧
          SameBut changed s s') ∧
      ∀ (changed : Setting) tree' entries', Sources tree' current path env entries' →
        (∀ k ≠ changed, k.inTable? entries' = k.inTable? entries) →
          ∃ s', Settings.loadFrom tree' current path env = .ok s' ∧ SameBut changed s s' := by
  obtain ⟨s, hload, hget⟩ := h.exists_loadFrom
  refine ⟨s, hload, hget, ?_, ?_⟩
  · intro changed value haccepts
    have hset : WellSet (env ++ [(changed.variableName, value)]) := by
      intro v hv
      rcases List.mem_append.1 hv with hv | hv
      · exact h.wellSet v hv
      · obtain rfl := List.mem_singleton.1 hv
        exact .inr ⟨changed, rfl, haccepts⟩
    obtain ⟨s', hload', hget'⟩ := Sources.exists_loadFrom ⟨h.file, h.wellTyped, hset⟩
    refine ⟨s', hload', ?_, fun k hk => ?_⟩
    · simpa [inEnvironment?_append, readOr] using hget' changed
    · have hk' := hget' k
      rw [inEnvironment?_append, if_neg hk, hget k] at hk'
      exact (Except.ok.inj hk').symm
  · intro changed tree' entries' h' hsame
    obtain ⟨s', hload', hget'⟩ := h'.exists_loadFrom
    refine ⟨s', hload', fun k hk => ?_⟩
    have hk' := hget' k
    rw [hsame k hk, hget k] at hk'
    exact (Except.ok.inj hk').symm

/-- A text that sets two settings. -/
def textLayered : String := "[parser]\nerror_recovery=false\n[logging]\nansi=false"

def treeLayered : FileTree := .directory [("a.toml", .file (some textLayered))]

def entriesLayered : List (String × Document) :=
  [("parser", table [("error_recovery", bool false)]), ("logging", table [("ansi", bool false)])]

/-- An environment that sets one of them, among variables that set nothing. -/
def environmentLayered : Environment := [("HOME", "/"), ("DECLINK_LOGGING__ANSI", "true")]

theorem read_true : Variable.read "true" = bool true := by
  cbv

theorem sources_layered :
    Sources treeLayered [] "a.toml" environmentLayered entriesLayered where
  file := by
    refine ⟨textLayered, ?_, by cbv⟩
    have hfollow : treeLayered.follow [] "a.toml" = .ok ["a.toml"] := by decide +kernel
    have hnearest : (Settings.ancestors []).find? (treeLayered.isFile · "a.toml") = some [] := by
      decide +kernel
    rw [Settings.findFile, if_neg (by decide), hnearest, Option.bind, FileTree.find?, hfollow]
    rfl
  wellTyped := by
    refine ⟨fun k s hs v hv => ?_, fun k v hv => ?_⟩
    · cases k <;> cases hs <;> cases hv <;> exact ⟨_, rfl⟩
    · cases k <;> cases hv <;> exact ⟨by simp, _, rfl⟩
  wellSet := by
    intro v hv
    rcases List.mem_pair.1 hv with rfl | rfl
    · exact .inl (by decide +kernel)
    · refine .inr ⟨ansi, by decide +kernel, ?_⟩
      rw [read_true]
      exact ⟨by simp, true, rfl⟩

theorem loaded_by_layer_layered :
    Sources treeLayered [] "a.toml" environmentLayered entriesLayered ∧
      ∃ s, Settings.loadFrom treeLayered [] "a.toml" environmentLayered = .ok s ∧
        s.parser.errorRecovery = some false ∧ s.logging.ansi = true ∧ s.version = 1 := by
  obtain ⟨s, hload, hget, -, -⟩ := loaded_by_layer sources_layered
  have hset (k : Setting) : Table.get? environmentLayered.reverse k.variableName =
      if k = ansi then some "true" else none := by
    cases k <;> decide +kernel
  have hrecovery := hget errorRecovery
  have hansi := hget ansi
  have hversion := hget version
  simp only [inEnvironment?, hset, reduceCtorEq, if_false, Option.map_none] at hrecovery hversion
  simp only [inEnvironment?, hset, if_true, Option.map_some, read_true] at hansi
  exact ⟨sources_layered, s, hload, (Except.ok.inj hrecovery).symm, (Except.ok.inj hansi).symm,
    (Except.ok.inj hversion).symm⟩

end Setting

end ModuleGraph
