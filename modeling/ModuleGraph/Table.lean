/-
# Tables

A finite map as a list of keys with their values. A key that is put again
keeps its place; what counts for a key is the first entry that has it.

Key definitions: `Table.put`, `Table.remove`, `Table.get?`, `Table.keys`.
Key theorems: `Table.get?_put`, `Table.get?_remove`, `Table.mem_keys_iff`.
-/

namespace ModuleGraph

abbrev Table (κ α : Type) := List (κ × α)

namespace Table

variable {κ α : Type} [DecidableEq κ]

def get? : Table κ α → κ → Option α
  | [], _ => none
  | (k, v) :: rest, key => if k = key then some v else get? rest key

/-- Puts a value under a key: in the place of the key, if it has one, else last. -/
def put (key : κ) (value : α) : Table κ α → Table κ α
  | [] => [(key, value)]
  | (k, v) :: rest => if k = key then (key, value) :: rest else (k, v) :: put key value rest

/-- Takes a key and its values away. -/
def remove (key : κ) : Table κ α → Table κ α
  | [] => []
  | (k, v) :: rest => if k = key then remove key rest else (k, v) :: remove key rest

def keys (table : Table κ α) : List κ := table.map Prod.fst

@[simp] theorem get?_nil (key : κ) : get? ([] : Table κ α) key = none := rfl

theorem get?_put (key key' : κ) (value : α) : ∀ table : Table κ α,
    get? (put key value table) key' = if key = key' then some value else get? table key'
  | [] => by simp [put, get?]
  | (k, v) :: rest => by
    have ih := get?_put key key' value rest
    by_cases h : k = key
    · subst h
      by_cases h' : k = key' <;> simp [put, get?, h']
    · by_cases h' : k = key'
      · subst h'
        simp [put, get?, h, Ne.symm h]
      · simp [put, get?, h, h', ih]

theorem get?_remove (key key' : κ) : ∀ table : Table κ α,
    get? (remove key table) key' = if key = key' then none else get? table key'
  | [] => by simp [remove]
  | (k, v) :: rest => by
    have ih := get?_remove key key' rest
    by_cases h : k = key
    · subst h
      by_cases h' : k = key'
      · subst h'
        simp [remove, ih]
      · simp [remove, get?, ih, h']
    · by_cases h' : k = key'
      · subst h'
        simp [remove, get?, h, Ne.symm h]
      · simp [remove, get?, h, h', ih]

theorem mem_keys_iff (key : κ) : ∀ table : Table κ α,
    key ∈ keys table ↔ (get? table key).isSome
  | [] => by simp [keys]
  | (k, v) :: rest => by
    have ih := mem_keys_iff key rest
    by_cases h : k = key
    · simp [keys, get?, h]
    · simp only [keys] at ih
      simp [keys, get?, h, ← ih, Ne.symm h]

theorem get?_eq_none_iff {key : κ} {table : Table κ α} :
    get? table key = none ↔ key ∉ keys table := by
  rw [mem_keys_iff, Option.not_isSome_iff_eq_none]

theorem mem_of_get? {key : κ} {value : α} : ∀ {table : Table κ α},
    get? table key = some value → (key, value) ∈ table
  | (k, v) :: rest, h => by
    by_cases hk : k = key
    · obtain rfl : v = value := by simpa [get?, hk] using h
      exact hk ▸ List.mem_cons_self
    · exact List.mem_cons_of_mem _ (mem_of_get? (by simpa [get?, hk] using h))

theorem put_of_get?_eq_none {key : κ} {value : α} : ∀ {table : Table κ α},
    get? table key = none → put key value table = table ++ [(key, value)]
  | [], _ => rfl
  | (k, v) :: rest, h => by
    by_cases hk : k = key
    · simp [get?, hk] at h
    · have hrest : get? rest key = none := by simpa [get?, hk] using h
      simp [put, hk, put_of_get?_eq_none hrest]

theorem keys_put_of_not_mem {key : κ} (value : α) {table : Table κ α} (h : key ∉ keys table) :
    keys (put key value table) = keys table ++ [key] := by
  rw [put_of_get?_eq_none (get?_eq_none_iff.2 h)]
  simp [keys]

end Table

end ModuleGraph
