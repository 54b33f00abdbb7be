/-
# Names in TOML

No table of a TOML text has two entries of one name (`Toml.distinct_of_parse?`): a text that
names something twice is no TOML. So what a document has under a name is one thing, and the
order of its entries does not matter.

Tables are built up entry by entry. An entry is added only under a name that is free, and an
entry that is there already is replaced by one that has grown; so the names stay distinct at
every step (`Distinct.put`), in tables on one line as well as in those of headers.

Key definitions: `Document.Distinct`, `Toml.Item.Distinct`, `Toml.DistinctEntries`.
Key theorems: `Toml.distinct_insertDotted`, `Toml.distinct_changeAt`, `Toml.distinct_value?`,
`Toml.distinct_of_parse?`.
-/
import ModuleGraph.Proofs.Declarations
import ModuleGraph.Toml.Reader

namespace ModuleGraph

namespace Table

variable {κ α : Type} [DecidableEq κ] {key : κ} {value : α}

theorem of_mem_put {entry : κ × α} : ∀ {table : Table κ α}, entry ∈ table.put key value →
    entry = (key, value) ∨ entry ∈ table
  | [], h => .inl (List.mem_singleton.1 h)
  | (k, v) :: rest, h => by
    by_cases hk : k = key
    · rw [put, if_pos hk] at h
      exact (List.mem_cons.1 h).imp_right (List.mem_cons_of_mem _)
    · rw [put, if_neg hk] at h
      rcases List.mem_cons.1 h with rfl | h
      · exact .inr List.mem_cons_self
      · exact (of_mem_put h).imp_right (List.mem_cons_of_mem _)

end Table

/-- No table of a document has two entries of one name. -/
inductive Document.Distinct : Document → Prop
  | scalar {v : Document} (hlist : ∀ items, v ≠ list items)
    (htable : ∀ entries, v ≠ table entries) : Distinct v
  | list {items : List Document} (hitems : ∀ v ∈ items, Distinct v) : Distinct (list items)
  | table {entries : List (String × Document)} (names : (Table.keys entries).Nodup)
    (hentries : ∀ entry ∈ entries, Distinct entry.2) : Distinct (table entries)

namespace Toml

/-- No table of an item has two entries of one name. -/
inductive Item.Distinct : Item → Prop
  | value {v : Document} (h : v.Distinct) : Distinct (value v)
  | table {making : Making} {entries : Entries} (names : (Table.keys entries).Nodup)
    (hentries : ∀ entry ∈ entries, Distinct entry.2) : Distinct (table making entries)
  | rows {tables : List Entries} (names : ∀ entries ∈ tables, (Table.keys entries).Nodup)
    (hentries : ∀ entries ∈ tables, ∀ entry ∈ entries, Distinct entry.2) : Distinct (rows tables)

/-- Entries of distinct names, also further down. -/
structure DistinctEntries (entries : Entries) : Prop where
  names : (Table.keys entries).Nodup
  items : ∀ entry ∈ entries, Item.Distinct entry.2

namespace DistinctEntries

variable {entries : Entries} {name : String} {item : Item}

theorem nil : DistinctEntries [] := ⟨List.nodup_nil, by simp⟩

theorem put (h : DistinctEntries entries) (hitem : item.Distinct) :
    DistinctEntries (Table.put name item entries) where
  names := Table.nodup_keys_put item h.names
  items entry hentry := by
    rcases Table.of_mem_put hentry with rfl | hentry
    · exact hitem
    · exact h.items entry hentry

/-- An entry is added under a name that is free. -/
theorem concat (h : DistinctEntries entries) (hfree : Table.get? entries name = none)
    (hitem : item.Distinct) : DistinctEntries (entries ++ [(name, item)]) :=
  Table.put_of_get?_eq_none hfree ▸ h.put hitem

theorem get? (h : DistinctEntries entries) (hget : Table.get? entries name = some item) :
    item.Distinct :=
  h.items _ (Table.mem_of_get? hget)

theorem asTable (h : DistinctEntries entries) (making : Making) :
    (Item.table making entries).Distinct :=
  .table h.names h.items

end DistinctEntries

theorem Item.Distinct.entries {making : Making} {entries : Entries}
    (h : (Item.table making entries).Distinct) : DistinctEntries entries := by
  cases h with
  | table names hentries => exact ⟨names, hentries⟩

theorem Item.Distinct.tables {tables : List Entries} (h : (Item.rows tables).Distinct) :
    ∀ entries ∈ tables, DistinctEntries entries := by
  cases h with
  | rows names hentries => exact fun entries hmem => ⟨names entries hmem, hentries entries hmem⟩

theorem Item.distinct_rows {tables : List Entries}
    (h : ∀ entries ∈ tables, DistinctEntries entries) :
    (Item.rows tables).Distinct :=
  .rows (fun entries hmem => (h entries hmem).names) fun entries hmem => (h entries hmem).items

/-! ### Growing tables -/

section

variable {entries entries' : Entries} {key : String} {v : Document}

/-- The last of some tables is changed, the others stay. -/
theorem distinct_changeLast {change : Entries → Option Entries}
    (hchange : ∀ {entries entries'}, DistinctEntries entries → change entries = some entries' →
      DistinctEntries entries') : ∀ {tables tables' : List Entries},
    (∀ entries ∈ tables, DistinctEntries entries) → changeLast change tables = some tables' →
      ∀ entries ∈ tables', DistinctEntries entries
  | [], _, _, h => by cases h
  | [entries], _, htables, h => by
    obtain ⟨entries', hentries', rfl⟩ := Option.map_eq_some_iff.1 h
    simpa using hchange (htables entries (by simp)) hentries'
  | first :: second :: rest, _, htables, h => by
    obtain ⟨rest', hrest', rfl⟩ := Option.map_eq_some_iff.1 h
    have ih := distinct_changeLast hchange
      (fun entries hmem => htables entries (List.mem_cons_of_mem _ hmem)) hrest'
    simpa using ⟨htables first (by simp), ih⟩

theorem distinct_insertDotted (hv : v.Distinct) : ∀ {path : List String} {dotted : Bool}
    {entries entries' : Entries}, DistinctEntries entries →
      insertDotted key v dotted path entries = some entries' → DistinctEntries entries'
  | [], dotted, entries, entries', hentries, h => by
    cases dotted with
    | false => simp [insertDotted] at h
    | true =>
      cases hget : Table.get? entries key with
      | some old => simp [insertDotted, hget] at h
      | none =>
        obtain rfl : entries ++ [(key, .value v)] = entries' := by
          simpa [insertDotted, hget] using h
        exact hentries.concat hget (.value hv)
  | name :: path, dotted, entries, entries', hentries, h => by
    unfold insertDotted at h
    split at h
    · next hfree =>
      obtain ⟨below, hbelow, he⟩ := Option.bind_eq_some_iff.1 h
      obtain rfl := Option.some.inj he
      exact hentries.concat hfree ((distinct_insertDotted hv .nil hbelow).asTable _)
    · cases h
    · cases h
    · next making below hnot hget =>
      obtain ⟨below', hbelow', he⟩ := Option.bind_eq_some_iff.1 h
      obtain rfl := Option.some.inj he
      exact hentries.put ((distinct_insertDotted hv (hentries.get? hget).entries hbelow').asTable _)
    · next tables hget =>
      obtain ⟨tables', htables', he⟩ := Option.bind_eq_some_iff.1 h
      obtain rfl := Option.some.inj he
      exact hentries.put (Item.distinct_rows (distinct_changeLast (distinct_insertDotted hv)
        (hentries.get? hget).tables htables'))

theorem distinct_changeAt {change : Entries → Option Entries}
    (hchange : ∀ {entries entries'}, DistinctEntries entries → change entries = some entries' →
      DistinctEntries entries') : ∀ {path : List String} {entries entries' : Entries},
    DistinctEntries entries → changeAt change path entries = some entries' →
      DistinctEntries entries'
  | [], entries, entries', hentries, h => hchange hentries h
  | name :: path, entries, entries', hentries, h => by
    unfold changeAt at h
    split at h
    · next hfree =>
      obtain ⟨below, hbelow, he⟩ := Option.bind_eq_some_iff.1 h
      obtain rfl := Option.some.inj he
      exact hentries.concat hfree ((distinct_changeAt hchange .nil hbelow).asTable _)
    · cases h
    · next making below hget =>
      obtain ⟨below', hbelow', he⟩ := Option.bind_eq_some_iff.1 h
      obtain rfl := Option.some.inj he
      have hgrown := distinct_changeAt hchange (hentries.get? hget).entries hbelow'
      exact hentries.put (hgrown.asTable _)
    · next tables hget =>
      obtain ⟨tables', htables', he⟩ := Option.bind_eq_some_iff.1 h
      obtain rfl := Option.some.inj he
      exact hentries.put (Item.distinct_rows (distinct_changeLast (distinct_changeAt hchange)
        (hentries.get? hget).tables htables'))

theorem distinct_openTable (hentries : DistinctEntries entries)
    (h : openTable key entries = some entries') : DistinctEntries entries' := by
  unfold openTable at h
  split at h
  · next hfree =>
    obtain rfl := Option.some.inj h
    exact hentries.concat hfree (DistinctEntries.nil.asTable _)
  · next below hget =>
    obtain rfl := Option.some.inj h
    exact hentries.put ((hentries.get? hget).entries.asTable _)
  · cases h

theorem distinct_openRow (hentries : DistinctEntries entries)
    (h : openRow key entries = some entries') : DistinctEntries entries' := by
  unfold openRow at h
  split at h
  · next hfree =>
    obtain rfl := Option.some.inj h
    exact hentries.concat hfree (Item.distinct_rows (by simpa using DistinctEntries.nil))
  · next tables hget =>
    obtain rfl := Option.some.inj h
    have htables := (hentries.get? hget).tables
    refine hentries.put (Item.distinct_rows fun entries hmem => ?_)
    rcases List.mem_append.1 hmem with hmem | hmem
    · exact htables entries hmem
    · exact List.mem_singleton.1 hmem ▸ .nil
  · cases h

end

/-! ### Documents of tables -/

theorem documents_eq : ∀ entries : Entries,
    Item.documents entries = entries.map fun entry => (entry.1, entry.2.document)
  | [] => rfl
  | (name, item) :: rest => by simp [Item.documents, documents_eq rest]

theorem documentRows_eq : ∀ tables : List Entries,
    Item.documentRows tables = tables.map fun entries => .table (Item.documents entries)
  | [] => rfl
  | entries :: rest => by simp [Item.documentRows, documentRows_eq rest]

theorem keys_documents (entries : Entries) :
    Table.keys (Item.documents entries) = Table.keys entries := by
  simp [documents_eq, Table.keys]

theorem distinct_document {item : Item} (h : item.Distinct) : item.document.Distinct := by
  have hentries {entries : Entries} (names : (Table.keys entries).Nodup)
      (ih : ∀ entry ∈ entries, entry.2.document.Distinct) :
      (Document.table (Item.documents entries)).Distinct := by
    refine .table (keys_documents entries ▸ names) fun entry hentry => ?_
    rw [documents_eq] at hentry
    obtain ⟨entry', hmem, rfl⟩ := List.mem_map.1 hentry
    exact ih entry' hmem
  induction h with
  | value h => exact h
  | table names _ ih => exact hentries names ih
  | rows names _ ih =>
    rw [Item.document, documentRows_eq]
    refine .list fun v hv => ?_
    obtain ⟨entries, hmem, rfl⟩ := List.mem_map.1 hv
    exact hentries (names entries hmem) (ih entries hmem)

/-! ### Values -/

section

variable {cs rest : List Char} {v : Document}

theorem distinct_integer {negative : Bool} {n : Nat} (h : integer negative n = some v) :
    v.Distinct := by
  unfold integer at h
  split at h <;> split at h <;> cases h <;> exact .scalar nofun nofun

theorem distinct_based? {base : Nat} (h : based? base cs = some (v, rest)) : v.Distinct := by
  obtain ⟨⟨digits, rest₁⟩, -, h⟩ := Option.bind_eq_some_iff.1 h
  obtain ⟨n, -, h⟩ := Option.bind_eq_some_iff.1 h
  obtain ⟨w, hw, h⟩ := Option.bind_eq_some_iff.1 h
  cases h
  exact distinct_integer hw

theorem distinct_float? {negative : Bool} {digits : List Char} {exponent : Int}
    (h : float? negative digits exponent cs = some (v, rest)) : v.Distinct := by
  unfold float? at h
  dsimp only at h
  split at h
  · cases h
  · cases h
    exact .scalar nofun nofun

theorem distinct_decimal? {negative : Bool} (h : decimal? negative cs = some (v, rest)) :
    v.Distinct := by
  obtain ⟨⟨whole, rest₁⟩, -, h⟩ := Option.bind_eq_some_iff.1 h
  dsimp only at h
  split at h
  · split at h <;> exact distinct_float? h
  · split at h
    · exact distinct_float? h
    · obtain ⟨w, hw, h⟩ := Option.bind_eq_some_iff.1 h
      cases h
      exact distinct_integer hw

/-- A moment is a table, but of one entry. -/
theorem distinct_number? (h : number? cs = some (v, rest)) : v.Distinct := by
  unfold number? at h
  split at h
  · exact distinct_based? h
  · exact distinct_based? h
  · exact distinct_based? h
  · split at h
    · obtain ⟨rest₁, -, h⟩ := Option.bind_eq_some_iff.1 h
      cases h
      exact .table (List.nodup_cons.2 ⟨List.not_mem_nil, .nil⟩) (by simpa using .scalar nofun nofun)
    · dsimp only at h
      split at h
      · next hspecial =>
        cases h
        unfold special? at hspecial
        split at hspecial
        · cases hspecial
          exact .scalar nofun nofun
        · obtain ⟨r, -, he⟩ := Option.map_eq_some_iff.1 hspecial
          cases he
          exact .scalar nofun nofun
      · exact distinct_decimal? h

mutual
theorem distinct_value? : ∀ {fuel : Nat} {cs rest : List Char} {v : Document},
    value? fuel cs = some (v, rest) → v.Distinct
  | 0, _, _, _, h => by cases h
  | fuel + 1, cs, rest, v, h => by
    unfold value? at h
    split at h
    · obtain ⟨r, -, he⟩ := Option.map_eq_some_iff.1 h
      cases he
      exact .scalar nofun nofun
    · obtain ⟨r, -, he⟩ := Option.map_eq_some_iff.1 h
      cases he
      exact .scalar nofun nofun
    · exact distinct_items? (by simp) h
    · split at h
      · cases h
        exact .table List.nodup_nil (by simp)
      · exact distinct_pairs? .nil h
    · obtain ⟨r, -, he⟩ := Option.map_eq_some_iff.1 h
      cases he
      exact .scalar nofun nofun
    · obtain ⟨r, -, he⟩ := Option.map_eq_some_iff.1 h
      cases he
      exact .scalar nofun nofun
    · exact distinct_number? h

theorem distinct_items? : ∀ {fuel : Nat} {before : List Document} {cs rest : List Char}
    {v : Document}, (∀ w ∈ before, w.Distinct) → items? fuel before cs = some (v, rest) → v.Distinct
  | 0, _, _, _, _, _, h => by cases h
  | fuel + 1, before, cs, rest, v, hbefore, h => by
    unfold items? at h
    obtain ⟨cs₁, -, h⟩ := Option.bind_eq_some_iff.1 h
    split at h
    · cases h
      exact .list (by simpa using hbefore)
    · obtain ⟨⟨w, rest₁⟩, hw, h⟩ := Option.bind_eq_some_iff.1 h
      obtain ⟨rest₂, -, h⟩ := Option.bind_eq_some_iff.1 h
      have hbefore' : ∀ u ∈ w :: before, u.Distinct := by
        simpa using ⟨distinct_value? hw, hbefore⟩
      split at h
      · exact distinct_items? hbefore' h
      · cases h
        exact .list fun u hu => hbefore' u (List.mem_reverse.1 hu)
      · cases h

theorem distinct_pairs? : ∀ {fuel : Nat} {entries : Entries} {cs rest : List Char}
    {v : Document}, DistinctEntries entries → pairs? fuel entries cs = some (v, rest) → v.Distinct
  | 0, _, _, _, _, _, h => by cases h
  | fuel + 1, entries, cs, rest, v, hentries, h => by
    unfold pairs? at h
    obtain ⟨⟨names, rest₁⟩, -, h⟩ := Option.bind_eq_some_iff.1 h
    dsimp only at h
    split at h
    · obtain ⟨⟨w, rest₂⟩, hw, h⟩ := Option.bind_eq_some_iff.1 h
      obtain ⟨entries', hentries', h⟩ := Option.bind_eq_some_iff.1 h
      have hdistinct := distinct_insertDotted (distinct_value? hw) hentries hentries'
      split at h
      · exact distinct_pairs? hdistinct h
      · cases h
        exact distinct_document (hdistinct.asTable _)
      · cases h
    · cases h
end

end

/-! ### Lines -/

theorem distinct_headerLine? {r r' : Reading} {cs rest : List Char}
    (hr : DistinctEntries r.entries) (h : headerLine? r cs = some (r', rest)) :
    DistinctEntries r'.entries := by
  unfold headerLine? at h
  split at h
  all_goals
    obtain ⟨⟨names, rest₁⟩, -, h⟩ := Option.bind_eq_some_iff.1 h
    dsimp only at h
    split at h
    · obtain ⟨entries', hentries', h⟩ := Option.bind_eq_some_iff.1 h
      obtain ⟨rest₂, -, h⟩ := Option.bind_eq_some_iff.1 h
      cases h
      first
      | exact distinct_changeAt distinct_openRow hr hentries'
      | exact distinct_changeAt distinct_openTable hr hentries'
    · cases h

theorem distinct_pairLine? {r r' : Reading} {cs rest : List Char}
    (hr : DistinctEntries r.entries) (h : pairLine? r cs = some (r', rest)) :
    DistinctEntries r'.entries := by
  obtain ⟨⟨names, rest₁⟩, -, h⟩ := Option.bind_eq_some_iff.1 h
  dsimp only at h
  split at h
  · obtain ⟨⟨v, rest₂⟩, hv, h⟩ := Option.bind_eq_some_iff.1 h
    obtain ⟨rest₃, -, h⟩ := Option.bind_eq_some_iff.1 h
    obtain ⟨entries', hentries', h⟩ := Option.bind_eq_some_iff.1 h
    cases h
    exact distinct_changeAt (distinct_insertDotted (distinct_value? hv)) hr hentries'
  · cases h

theorem distinct_lines? : ∀ {fuel : Nat} {r r' : Reading} {cs : List Char},
    DistinctEntries r.entries → lines? fuel r cs = some r' → DistinctEntries r'.entries
  | 0, _, _, _, _, h => by cases h
  | fuel + 1, r, r', cs, hr, h => by
    unfold lines? at h
    split at h
    · cases h
      exact hr
    · obtain ⟨⟨r₁, rest⟩, hheader, h⟩ := Option.bind_eq_some_iff.1 h
      exact distinct_lines? (distinct_headerLine? hr hheader) h
    · split at h
      · obtain ⟨rest, -, h⟩ := Option.bind_eq_some_iff.1 h
        exact distinct_lines? hr h
      · obtain ⟨⟨r₁, rest⟩, hpair, h⟩ := Option.bind_eq_some_iff.1 h
        exact distinct_lines? (distinct_pairLine? hr hpair) h

/-- **A text that names something twice is no TOML.** -/
theorem distinct_of_parse? {text : String} {entries : List (String × Document)}
    (h : parse? text = some entries) : (Document.table entries).Distinct := by
  obtain ⟨r, hr, rfl⟩ := Option.map_eq_some_iff.1 h
  have hentries := distinct_lines? (r := {}) .nil hr
  exact distinct_document (hentries.asTable .header)

end Toml

end ModuleGraph
