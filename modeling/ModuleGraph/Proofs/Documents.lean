/-
# What is read from layered tables

A record is read from a table that others were laid over and that was put in order, entry by
entry. If no name comes twice, none of this depends on the order of the entries: what a table
has under a name after another was laid over it follows from what the two have there
(`get?_overlaidAll`), putting it in order changes nothing (`get?_sortedEntries`), and what the
record has in a field follows from what the table has under the name of the field
(`exists_record`).

Key definitions: `Document.readOr`, `Document.Views`.
Key theorems: `Document.get?_overlaidAll`, `Document.get?_sortedEntries`,
`Document.exists_record`.
-/
import ModuleGraph.Proofs.Declarations
import ModuleGraph.Document.Reader
import ModuleGraph.Settings.Layer

namespace ModuleGraph

theorem Table.get?_of_mem {κ α : Type} [DecidableEq κ] {key : κ} {value : α} :
    ∀ {table : Table κ α}, table.keys.Nodup → (key, value) ∈ table → table.get? key = some value
  | (k, v) :: rest, hkeys, h => by
    obtain ⟨hk, hrest⟩ := List.nodup_cons.1 hkeys
    rcases List.mem_cons.1 h with he | h
    · cases he
      simp [get?]
    · have hmem : key ∈ Table.keys rest := List.mem_map.2 ⟨_, h, rfl⟩
      have hne : k ≠ key := fun e => hk (e ▸ hmem)
      simp [get?, hne, get?_of_mem hrest h]

/-- Under keys that differ, what counts does not depend on the order. -/
theorem Table.get?_of_perm {κ α : Type} [DecidableEq κ] {table table' : Table κ α}
    (h : table.Perm table') (hkeys : table.keys.Nodup) (key : κ) :
    table.get? key = table'.get? key := by
  cases hget : table'.get? key with
  | some value => exact get?_of_mem hkeys (h.mem_iff.2 (mem_of_get? hget))
  | none =>
    have hkey : key ∉ table.keys := fun hmem =>
      get?_eq_none_iff.1 hget ((h.map Prod.fst).mem_iff.1 hmem)
    exact get?_eq_none_iff.2 hkey

namespace Document

variable {under above entries : List (String × Document)} {name : String} {v : Document}

/-! ### Laying over -/

theorem nodup_keys_overlaidAll (h : (Table.keys under).Nodup) :
    (Table.keys (overlaidAll under above)).Nodup := by
  induction above generalizing under with
  | nil => exact h
  | cons entry above ih => exact ih (Table.nodup_keys_put _ h)

/-- **Layers are laid over each other name by name.** -/
theorem get?_overlaidAll (name : String) : ∀ {under above : List (String × Document)},
    (Table.keys above).Nodup → Table.get? (overlaidAll under above) name =
      match Table.get? above name with
      | some v => some (overlaid ((Table.get? under name).getD empty) v)
      | none => Table.get? under name
  | _, [], _ => rfl
  | under, (n, v) :: above, h => by
    obtain ⟨hn, habove⟩ := List.nodup_cons.1 h
    rw [overlaidAll, get?_overlaidAll name habove, Table.get?_put]
    by_cases hname : n = name
    · subst hname
      have hnone : Table.get? above n = none := Table.get?_eq_none_iff.2 hn
      simp [Table.get?, hnone]
    · simp [Table.get?, hname]

/-! ### Putting in order -/

theorem keys_sortedAll : ∀ entries : List (String × Document),
    Table.keys (sortedAll entries) = Table.keys entries
  | [] => rfl
  | (n, _) :: rest => congrArg (n :: ·) (keys_sortedAll rest)

theorem get?_sortedAll (name : String) : ∀ entries : List (String × Document),
    Table.get? (sortedAll entries) name = (Table.get? entries name).map sorted
  | [] => rfl
  | (n, v) :: rest => by
    by_cases hname : n = name <;> simp [sortedAll, Table.get?, hname, get?_sortedAll name rest]

theorem sortedEntries_perm (entries : List (String × Document)) :
    (sortedEntries entries).Perm (sortedAll entries) :=
  List.mergeSort_perm _ _

theorem nodup_keys_sortedEntries (h : (Table.keys entries).Nodup) :
    (Table.keys (sortedEntries entries)).Nodup := by
  rw [← keys_sortedAll] at h
  exact ((sortedEntries_perm entries).map Prod.fst).nodup_iff.2 h

/-- **What a table has under a name does not depend on the order of its entries.** -/
theorem get?_sortedEntries (name : String) (h : (Table.keys entries).Nodup) :
    Table.get? (sortedEntries entries) name = (Table.get? entries name).map sorted := by
  rw [Table.get?_of_perm (sortedEntries_perm entries) (nodup_keys_sortedEntries h) name,
    get?_sortedAll]

/-! ### Reading records -/

section

variable {ρ α β : Type} {fields : List (Field ρ)} {read : Reader α} {view : ρ → α}

/-- What a reader makes of a document that may be missing: in its place there is a default. -/
def readOr (read : Reader α) (default : α) : Option Document → Except Mismatch α
  | some v => read v
  | none => .ok default

/-- A part of a record that one field fills in, by a reader of its own, and no other touches. -/
structure Views (fields : List (Field ρ)) (name : String) (read : Reader α) (view : ρ → α) :
    Prop where
  named : ∃ f ∈ fields, f.name = name
  fills : ∀ f ∈ fields, f.name = name → ∀ v change, f.read v = .ok change →
    ∀ r, read v = .ok (view (change r))
  keeps : ∀ f ∈ fields, f.name ≠ name → ∀ v change, f.read v = .ok change →
    ∀ r, view (change r) = view r

theorem of_read_of {n : String} {read' : Reader β} {set : β → ρ → ρ} {change : ρ → ρ}
    (h : (Field.of n read' set).read v = .ok change) : ∃ x, read' v = .ok x ∧ change = set x := by
  cases hread : read' v with
  | error m => simp [Field.of, hread, Except.map] at h
  | ok x => exact ⟨x, rfl, by simpa [Field.of, hread, Except.map, eq_comm] using h⟩

/-- Fields that leave a part of a record to the field of a name. -/
def Spares (fields : List (Field ρ)) (name : String) (view : ρ → α) : Prop :=
  ∀ f ∈ fields, f.name ≠ name ∧ ∀ v change, f.read v = .ok change → ∀ r, view (change r) = view r

theorem Spares.nil : Spares [] name view := fun _ hf => (List.not_mem_nil hf).elim

theorem Spares.cons {n : String} {read' : Reader β} {set : β → ρ → ρ} (hn : n ≠ name)
    (hset : ∀ x r, view (set x r) = view r) (h : Spares fields name view) :
    Spares (.of n read' set :: fields) name view := by
  intro f hf
  rcases List.mem_cons.1 hf with rfl | hf
  · refine ⟨hn, fun v change hread r => ?_⟩
    obtain ⟨x, -, rfl⟩ := of_read_of hread
    exact hset x r
  · exact h f hf

theorem Views.here {set : α → ρ → ρ} (hset : ∀ x r, view (set x r) = x)
    (hrest : Spares fields name view) : Views (.of name read set :: fields) name read view where
  named := ⟨_, List.mem_cons_self, rfl⟩
  fills f hf hname v change hread r := by
    rcases List.mem_cons.1 hf with rfl | hf
    · obtain ⟨x, hx, rfl⟩ := of_read_of hread
      rw [hx, hset]
    · exact absurd hname (hrest f hf).1
  keeps f hf hname v change hread r := by
    rcases List.mem_cons.1 hf with rfl | hf
    · exact absurd rfl hname
    · exact (hrest f hf).2 v change hread r

theorem Views.there {n : String} {read' : Reader β} {set : β → ρ → ρ} (hn : n ≠ name)
    (hset : ∀ x r, view (set x r) = view r) (h : Views fields name read view) :
    Views (.of n read' set :: fields) name read view where
  named := h.named.imp fun _ hf => ⟨List.mem_cons_of_mem _ hf.1, hf.2⟩
  fills f hf hname v change hread r := by
    rcases List.mem_cons.1 hf with rfl | hf
    · exact absurd hname hn
    · exact h.fills f hf hname v change hread r
  keeps f hf hname v change hread r := by
    rcases List.mem_cons.1 hf with rfl | hf
    · obtain ⟨x, -, rfl⟩ := of_read_of hread
      exact hset x r
    · exact h.keeps f hf hname v change hread r

/-- Entries are read if each one is that has a field. -/
theorem exists_readEntries (hok : ∀ entry ∈ entries, ∀ f ∈ fields, f.name = entry.1 →
    ∃ change, f.read entry.2 = .ok change) (r : ρ) :
    ∃ r', readEntries fields r entries = .ok r' := by
  induction entries generalizing r with
  | nil => exact ⟨r, rfl⟩
  | cons entry rest ih =>
    have hrest := ih fun e he => hok e (List.mem_cons_of_mem _ he)
    unfold readEntries
    split
    · exact hrest r
    · next f hf =>
      have hname : f.name = entry.1 := by simpa using List.find?_some hf
      have hmem := List.mem_of_find?_eq_some hf
      obtain ⟨change, hchange⟩ := hok entry List.mem_cons_self f hmem hname
      rw [hchange]
      exact hrest (change r)

theorem view_readEntries (hview : Views fields name read view) : ∀ {entries} {r r' : ρ},
    (Table.keys entries).Nodup → readEntries fields r entries = .ok r' →
      readOr read (view r) (Table.get? entries name) = .ok (view r')
  | [], r, r', _, h => by
    cases h
    rfl
  | (n, v) :: rest, r, r', hnames, h => by
    obtain ⟨hn, hrest⟩ := List.nodup_cons.1 hnames
    have hnone (hname : n = name) : Table.get? rest name = none :=
      Table.get?_eq_none_iff.2 (hname ▸ hn)
    unfold readEntries at h
    split at h
    · next hfind =>
      have hne : n ≠ name := by
        rintro rfl
        obtain ⟨f, hf, hname⟩ := hview.named
        simpa [hname] using List.find?_eq_none.1 hfind f hf
      simpa [Table.get?, hne] using view_readEntries hview hrest h
    · next f hfind =>
      have hmem := List.mem_of_find?_eq_some hfind
      have hfname : f.name = n := by simpa using List.find?_some hfind
      cases hread : f.read v with
      | error m => simp [hread] at h
      | ok change =>
        rw [hread] at h
        have ih := view_readEntries hview hrest h
        by_cases hname : n = name
        · rw [hnone hname] at ih
          have hfills := hview.fills f hmem (hfname.trans hname) v change hread r
          simpa [Table.get?, hname, readOr, hfills] using ih
        · have hkeeps := hview.keeps f hmem (hfname ▸ hname) v change hread r
          simpa [Table.get?, hname, hkeeps] using ih

/-- **A record is read field by field:** if the entry of each field that a table has is read,
so is the record, and a field is what its entry says, or its default. -/
theorem exists_record (origin : Origin) (typeName : String) (start : ρ)
    (hdefaults : ∀ f ∈ fields, f.required = false) (hnames : (Table.keys entries).Nodup)
    (hok : ∀ f ∈ fields, ∀ v, Table.get? entries f.name = some v →
      ∃ change, f.read v = .ok change) :
    ∃ r, record origin typeName fields start (table entries) = .ok r ∧
      ∀ {α : Type} {name : String} {read : Reader α} {view : ρ → α}, Views fields name read view →
        readOr read (view start) (Table.get? entries name) = .ok (view r) := by
  have hentries : ∀ entry ∈ entries, ∀ f ∈ fields, f.name = entry.1 →
      ∃ change, f.read entry.2 = .ok change := fun entry hentry f hf hname =>
    hok f hf entry.2 (hname ▸ Table.get?_of_mem hnames hentry)
  obtain ⟨r, hr⟩ := exists_readEntries hentries start
  refine ⟨r, ?_, fun hview => view_readEntries hview hnames hr⟩
  have hmissing : missing? fields entries = none := by
    simp only [missing?, Option.map_eq_none_iff, List.find?_eq_none]
    intro f hf
    simp [hdefaults f hf]
  simp [record, hr, hmissing, bind, Except.bind]

end

end Document

end ModuleGraph
