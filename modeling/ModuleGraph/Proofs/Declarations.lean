/-
# What is declared, by the log

The service logs every call and keeps the declarations beside the log. The two agree after
any calls, of whatever texts, identifiers and languages: what is declared under an identifier
for a language is the text of the last entry of the log for the two, unless it is empty
(`Service.logged?`). The declarations are a table with one entry for a key, so that what is
declared for a language can be listed in order, each identifier once.

That they agree is an invariant (`Service.Agrees`) which one call keeps, and so any calls do.

Key definitions: `Service.Call`, `Service.after`, `Service.logged?`, `Service.Agrees`.
Key theorems: `Service.logged?_concat`, `Service.Agrees.register`, `Service.declared_after`.
-/
import Mathlib.Data.List.Sort
import Mathlib.Data.String.Basic
import ModuleGraph.Service

namespace ModuleGraph

/-! ### Keys of tables -/

namespace Table

variable {κ α : Type} [DecidableEq κ] {key : κ}

theorem keys_put_of_mem (value : α) : ∀ {table : Table κ α}, key ∈ table.keys →
    (table.put key value).keys = table.keys
  | (k, v) :: rest, h => by
    by_cases hk : k = key
    · simp [put, keys, hk]
    · have hrest : key ∈ keys rest := (List.mem_cons.1 h).resolve_left fun e => hk e.symm
      have ih := keys_put_of_mem value hrest
      simp only [keys] at ih
      simp [put, keys, hk, ih]

theorem keys_remove : ∀ table : Table κ α,
    (table.remove key).keys = table.keys.filter (· ≠ key)
  | [] => rfl
  | (k, v) :: rest => by
    have ih := keys_remove rest
    simp only [keys] at ih
    by_cases hk : k = key <;> simp [remove, keys, hk, ih]

theorem nodup_keys_put (value : α) {table : Table κ α} (h : table.keys.Nodup) :
    (table.put key value).keys.Nodup := by
  by_cases hmem : key ∈ table.keys
  · rwa [keys_put_of_mem value hmem]
  · rw [keys_put_of_not_mem value hmem]
    exact List.nodup_append.2 ⟨h, by simp, fun k hk k' hk' e =>
      hmem (List.mem_singleton.1 hk' ▸ e ▸ hk)⟩

theorem nodup_keys_remove {table : Table κ α} (h : table.keys.Nodup) :
    (table.remove key).keys.Nodup := by
  rw [keys_remove]
  exact h.filter _

end Table

namespace Service

/-! ### The log -/

/-- An entry of the log is about an identifier and a language. -/
def isAbout (identifier : String) (language : Language) (entry : Registration) : Bool :=
  entry.identifier == identifier && entry.language == language

/-- What is declared, as the log has it: the text of the last entry, unless it is empty. -/
def logged? (history : List Registration) (identifier : String) (language : Language) :
    Option String :=
  ((history.filter (isAbout identifier language)).getLast?.map Registration.text).filter
    fun text => !text.isEmpty

/-- The last entry decides. -/
theorem logged?_concat (history : List Registration) (entry : Registration)
    (identifier : String) (language : Language) :
    logged? (history ++ [entry]) identifier language =
      if entry.identifier = identifier ∧ entry.language = language then
        if entry.text.isEmpty then none else some entry.text
      else logged? history identifier language := by
  unfold logged?
  by_cases h : entry.identifier = identifier ∧ entry.language = language
  · have habout : isAbout identifier language entry = true := by simp [isAbout, h]
    rw [if_pos h, List.filter_append, List.filter_cons_of_pos habout, List.filter_nil,
      List.getLast?_concat]
    cases hempty : entry.text.isEmpty <;> simp [Option.filter, hempty]
  · have habout : ¬ isAbout identifier language entry = true := by simpa [isAbout] using h
    rw [if_neg h, List.filter_append, List.filter_cons_of_neg habout, List.filter_nil,
      List.append_nil]

/-! ### The declarations agree with the log -/

/-- The declarations are what the log says, each key once. -/
structure Agrees (s : Service) : Prop where
  declaration?_eq : ∀ identifier language,
    s.declaration? identifier language = logged? s.history identifier language
  nodup : s.declarations.keys.Nodup

theorem agrees_empty : Agrees {} := ⟨fun _ _ => rfl, .nil⟩

/-- **A registration keeps log and declarations in agreement.** -/
theorem Agrees.register {s : Service} (h : s.Agrees) (text identifier : String)
    (language : Language) : (s.register text identifier language).Agrees where
  declaration?_eq name other := by
    rw [declaration?_register, history_register, logged?_concat, h.declaration?_eq]
  nodup := by
    unfold Service.register
    split
    · exact Table.nodup_keys_remove h.nodup
    · exact Table.nodup_keys_put text h.nodup

theorem Agrees.nodup_declared {s : Service} (h : s.Agrees) (language : Language) :
    ((s.declarations.keys.filter fun key => key.1 == language).map Prod.snd).Nodup := by
  refine List.pairwise_map.2 ((h.nodup.filter _).imp_of_mem fun {a b} ha hb hdiffer heq => ?_)
  have hlanguage : a.1 = b.1 := by
    rw [eq_of_beq (List.mem_filter.1 ha).2, eq_of_beq (List.mem_filter.1 hb).2]
  exact hdiffer (Prod.ext hlanguage heq)

theorem Agrees.pairwise_declared {s : Service} (h : s.Agrees) (language : Language) :
    (s.declared language).Pairwise (· < ·) :=
  (List.sortedLE_mergeSort.sortedLT_of_nodup (h.nodup_declared language).mergeSort).pairwise

/-- What is listed is what is declared. -/
theorem mem_declared (s : Service) (identifier : String) (language : Language) :
    identifier ∈ s.declared language ↔ (s.declaration? identifier language).isSome := by
  unfold declared declaration?
  rw [List.mem_mergeSort, ← Table.mem_keys_iff]
  simp

/-! ### After any calls -/

/-- A call that changes what is declared. -/
inductive Call where
  | register (text identifier : String) (language : Language)
  | unregister (identifier : String) (language : Language)

namespace Call

def apply (s : Service) : Call → Service
  | register text identifier language => s.register text identifier language
  | unregister identifier language => s.unregister identifier language

/-- What a call leaves in the log: to take a declaration away is to register an empty text. -/
def entry : Call → Registration
  | register text identifier language => ⟨identifier, language, text⟩
  | unregister identifier language => ⟨identifier, language, ""⟩

theorem history_apply (s : Service) (call : Call) :
    (call.apply s).history = s.history ++ [call.entry] := by
  cases call <;> rfl

end Call

theorem Agrees.apply {s : Service} (h : s.Agrees) (call : Call) : (call.apply s).Agrees := by
  cases call with
  | register text identifier language => exact h.register text identifier language
  | unregister identifier language => exact h.register "" identifier language

/-- The service after calls, from the start. -/
def after (calls : List Call) : Service := calls.foldl Call.apply {}

theorem Agrees.foldl {s : Service} (h : s.Agrees) (calls : List Call) :
    (calls.foldl Call.apply s).Agrees := by
  induction calls generalizing s with
  | nil => exact h
  | cons call calls ih => exact ih (h.apply call)

theorem history_foldl (s : Service) (calls : List Call) :
    (calls.foldl Call.apply s).history = s.history ++ calls.map Call.entry := by
  induction calls generalizing s with
  | nil => simp
  | cons call calls ih => simp [ih, Call.history_apply]

/-- **The stores agree with the log:** after any calls the log has an entry for each of them,
in their order; what is declared under an identifier for a language is the text of the last
entry for the two, unless it is empty; and the identifiers with a declaration are listed in
strict order, and no others. -/
theorem declared_after (calls : List Call) :
    (after calls).history = calls.map Call.entry ∧
      (∀ identifier language, (after calls).declaration? identifier language =
        logged? (after calls).history identifier language) ∧
      ∀ language, ((after calls).declared language).Pairwise (· < ·) ∧
        ∀ identifier, identifier ∈ (after calls).declared language ↔
          ((after calls).declaration? identifier language).isSome := by
  have hagrees : (after calls).Agrees := agrees_empty.foldl calls
  exact ⟨history_foldl {} calls, hagrees.declaration?_eq, fun language =>
    ⟨hagrees.pairwise_declared language, fun identifier => mem_declared _ identifier language⟩⟩

/-- Registered, emptied and registered again, with another language in between. -/
example :
    let s := after [.register "1" "b" .typescript, .register "2" "a" .typescript,
      .unregister "b" .typescript, .register "3" "b" .javascript, .register "4" "b" .typescript]
    s.declared .typescript = ["a", "b"] ∧ s.declaration? "b" .typescript = some "4" := by
  cbv

end Service

end ModuleGraph
