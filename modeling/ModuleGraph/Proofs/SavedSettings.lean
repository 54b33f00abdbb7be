/-
# Settings that are saved

Settings that were saved are loaded again as they were (`Settings.loadFrom_save`), whatever texts
are in them and whichever overrides are set. What is written is read back as the document that
was written (`Settings.parse?_text`), the file is found where it was written, and as it sets
every setting that has a value of its own, nothing of the defaults below it shows.

Key theorems: `Settings.parse?_text`, `Settings.loadFrom_save`.
-/
import ModuleGraph.Proofs.NearestSettings
import ModuleGraph.Proofs.TomlLines
import ModuleGraph.Proofs.WrittenFiles

namespace ModuleGraph

open Document

namespace Settings

variable {s : Settings} {tree tree' : FileTree} {current : Place} {path : String}
  {env : Environment}

/-! ### The text -/

/-- Entries that are written line by line and read back as they are. -/
def Kept (entries : List (String × Document)) : Prop :=
  Toml.Lines entries ∧ (Table.keys entries).Nodup ∧
    ∀ entry ∈ entries, Toml.readBack entry.2 = entry.2

theorem kept_overrides (o : Syntax.Overrides) : Kept o.entries := by
  have hnames : Toml.BareName "source_type" ∧ Toml.BareName "error_recovery" ∧
      Toml.BareName "allow_import_export_everywhere" ∧ Toml.BareName "dialect" := by
    decide
  obtain ⟨t, e, a, d⟩ := o
  cases t <;> cases e <;> cases a <;> cases d <;>
    simp [Kept, Syntax.Overrides.entries, Toml.Lines, Toml.Writable, Toml.readBack, Table.keys,
      hnames]

theorem kept_sections (s : Settings) : ∀ p ∈ s.sections, Toml.BareName p.1 ∧ Kept p.2 := by
  have hnames : Toml.BareName "resolver" ∧ Toml.BareName "loader" ∧ Toml.BareName "parser" ∧
      Toml.BareName "logging" := by
    decide
  have hentries : Toml.BareName "dependency_root" ∧ Toml.BareName "declaration_suffix" ∧
      Toml.BareName "declaration_model" ∧ Toml.BareName "level" ∧ Toml.BareName "ansi" := by
    decide
  simp only [sections, List.forall_mem_cons]
  refine ⟨⟨hnames.1, ?_⟩, ⟨hnames.2.1, ?_⟩, ⟨hnames.2.2.1, kept_overrides _⟩,
    ⟨hnames.2.2.2, ?_⟩, by simp⟩ <;>
    simp [Kept, Toml.Lines, Toml.Writable, Toml.readBack, Table.keys, hentries]

/-- **What is written is read back.** -/
theorem parse?_text (h : s.version < Nat.pow 2 32) :
    Toml.parse? s.text = some (Setting.entriesOf s (.signed s.version)) := by
  have hversion : Toml.Writable (.unsigned s.version) := Nat.lt_trans h (by decide)
  have hsections : Toml.Sections s.sections := fun p hp =>
    have ⟨hname, hlines, hkeys, _⟩ := kept_sections s p hp
    ⟨hname, hlines, hkeys⟩
  have hkeys : ("version" :: Table.keys s.sections).Nodup := by
    have hnames : Table.keys s.sections = ["resolver", "loader", "parser", "logging"] := rfl
    rw [hnames]
    decide
  have hback : ∀ p ∈ s.sections, p.2.map (fun e => (e.1, Toml.readBack e.2)) = p.2 := by
    intro p hp
    obtain ⟨-, -, -, hkept⟩ := kept_sections s p hp
    refine (List.map_congr_left fun e he => ?_).trans (List.map_id _)
    rw [hkept e he]
    rfl
  rw [text, Toml.parse?_sections (by decide) hversion hsections hkeys, Setting.entriesOf]
  have htables : s.sections.map (fun p =>
      (p.1, table (p.2.map fun e => (e.1, Toml.readBack e.2)))) =
      s.sections.map fun p => (p.1, table p.2) :=
    List.map_congr_left fun p hp => by rw [hback p hp]
  rw [htables]
  rfl

/-! ### The file -/

theorem findFile_save (h : s.save tree current path = .ok tree') :
    findFile tree' current path = some (.file (some s.text)) := by
  unfold save at h
  split at h
  · cases h
  split at h
  · cases h
  split at h
  · cases h
  · next tree₂ hwrite =>
    obtain rfl := Except.ok.inj h
    have hfound := FileTree.find?_write hwrite
    rw [findFile_of_isFile (by simp [FileTree.isFile, hfound]), hfound]

/-- An environment without variables for settings has nothing for any. -/
theorem inEnvironment?_eq_none (henv : ∀ v ∈ env, Variable.path? v.1 = none) (k : Setting) :
    k.inEnvironment? env = none := by
  have hunset : k.variableName ∉ Table.keys env.reverse := by
    intro hmem
    obtain ⟨v, hv, hname⟩ := List.mem_map.1 hmem
    have hpath := henv v (List.mem_reverse.1 hv)
    rw [hname, Setting.path?_variableName] at hpath
    cases hpath
  rw [Setting.inEnvironment?, Table.get?_eq_none_iff.2 hunset]
  rfl

/-- **Settings survive a save:** in an environment that sets none of them, they are loaded as
they were saved. -/
theorem loadFrom_save (hversion : s.version < Nat.pow 2 32)
    (henv : ∀ v ∈ env, Variable.path? v.1 = none)
    (hsave : s.save tree current path = .ok tree') :
    loadFrom tree' current path env = .ok s := by
  have hnumber : natural32 (.signed s.version) = .ok s.version := by
    have hbounds : 0 ≤ (s.version : Int) ∧ (s.version : Int) < (Nat.pow 2 32 : Nat) :=
      ⟨by omega, by exact_mod_cast hversion⟩
    rw [natural32, natural, if_pos hbounds]
    rfl
  have hsources : Setting.Sources tree' current path env
      (Setting.entriesOf s (.signed s.version)) :=
    ⟨⟨s.text, findFile_save hsave, parse?_text hversion⟩, Setting.wellTyped_entriesOf hnumber,
      fun v hv => .inl (henv v hv)⟩
  obtain ⟨s', hload, hget⟩ := hsources.exists_loadFrom
  have hsame : s' = s := by
    refine Setting.ext_get fun k => ?_
    have hk := hget k
    rw [inEnvironment?_eq_none henv, Option.none_or, Setting.inTable?_entriesOf,
      Setting.readOr_written hnumber] at hk
    exact (Except.ok.inj hk).symm
  rw [hload, hsame]

/-- Settings with texts that have no plain notation, and with one override of four. -/
def awkward : Settings where
  version := 4294967295
  resolver := ⟨"\"\"\"\\\n\x00\x7f", ""⟩
  parser := { errorRecovery := some false }
  logging := ⟨"'\"\r\n", false⟩

theorem loadFrom_save_awkward : ∃ tree', awkward.version < Nat.pow 2 32 ∧
    awkward.save (.directory []) [] ".declink/settings.toml" = .ok tree' ∧
      loadFrom tree' [] ".declink/settings.toml" [("HOME", "/")] = .ok awkward := by
  have hsaved :
      (awkward.save (.directory []) [] ".declink/settings.toml").toOption.isSome = true := by
    decide +kernel
  cases hsave : awkward.save (.directory []) [] ".declink/settings.toml" with
  | error e =>
    rw [hsave] at hsaved
    cases hsaved
  | ok tree' =>
    have hversion : awkward.version < Nat.pow 2 32 := by decide
    have henv : ∀ v ∈ [("HOME", "/")], Variable.path? v.1 = none := by decide +kernel
    exact ⟨tree', hversion, rfl, loadFrom_save hversion henv hsave⟩

end Settings

end ModuleGraph
