/-
# Who loads what

While loads overlap, the statuses and the branches under way agree (`Owned`): no
two branches are under way for one identifier, an identifier for which one is
cannot be dispatched again, and what is marked as loading has a branch that will
end it. Every step keeps this: a dispatch adds identifiers that were free, and an
answer takes its branch away and marks the candidate as loaded or failed. Another
branch's answer may mark the identifier of a branch as loaded before its own
fetch completes, but never makes it free.

So nothing stays marked as loading once all loads have settled.

Key definitions: `Owned`.
Key theorems: `Run.owned`, `loading_owned`.
-/
import ModuleGraph.Proofs.Overlap

namespace ModuleGraph

/-- How the branches under way, given by their identifiers, and the statuses agree. -/
structure Owned (ids : List String) (r : Registry) : Prop where
  nodup : ids.Nodup
  blocked : ∀ id ∈ ids, r.mayLoad id = false
  loading : ∀ id, r.status? id = some .loading → id ∈ ids

namespace Owned

variable {ids ids' : List String} {r r' : Registry} {id : String}

theorem of_perm (h : Owned ids r) (p : ids.Perm ids') : Owned ids' r :=
  ⟨p.nodup_iff.1 h.nodup, fun id hid => h.blocked id (p.mem_iff.2 hid),
    fun id hs => p.mem_iff.1 (h.loading id hs)⟩

theorem of_no_loading (h : ∀ id, r.status? id ≠ some .loading) : Owned [] r :=
  ⟨List.nodup_nil, by simp, fun id hs => absurd hs (h id)⟩

/-- Identifiers that were free are marked, and branches begin for them. -/
theorem begin {new : List String} (h : Owned ids r) (nodup : new.Nodup)
    (free : ∀ id ∈ new, r.mayLoad id = true)
    (marked : ∀ id, r'.status? id = if id ∈ new then some .loading else r.status? id) :
    Owned (new ++ ids) r' := by
  have hdisj : ∀ id ∈ new, id ∉ ids := fun id hn hi => by
    have hf := free id hn
    rw [h.blocked id hi] at hf
    exact Bool.false_ne_true hf
  refine ⟨List.nodup_append'.2 ⟨nodup, h.nodup, hdisj⟩, fun id hid => ?_, fun id hs => ?_⟩
  · rw [Registry.mayLoad_eq_false_iff, marked]
    by_cases hn : id ∈ new
    · simp [hn]
    · rw [if_neg hn]
      exact (Registry.mayLoad_eq_false_iff ..).1
        (h.blocked id ((List.mem_append.1 hid).resolve_left hn))
  · rw [marked] at hs
    by_cases hn : id ∈ new
    · exact List.mem_append_left _ hn
    · rw [if_neg hn] at hs
      exact List.mem_append_right _ (h.loading id hs)

/-- A branch ends: its identifier is no longer loading, and another one changes at
most to loaded. -/
theorem finish (h : Owned (id :: ids) r) (own : r'.status? id ≠ some .loading)
    (others : ∀ other, other ≠ id → r'.status? other = r.status? other ∨
      r'.status? other = some .success) : Owned ids r' := by
  obtain ⟨hid, hnodup⟩ := List.nodup_cons.1 h.nodup
  refine ⟨hnodup, fun other ho => ?_, fun other hs => ?_⟩
  · have hne : other ≠ id := fun he => hid (he ▸ ho)
    rw [Registry.mayLoad_eq_false_iff]
    rcases others other hne with hr | hr <;> rw [hr]
    · exact (Registry.mayLoad_eq_false_iff ..).1 (h.blocked other (List.mem_cons_of_mem _ ho))
    · exact .inr rfl
  · have hne : other ≠ id := fun he => own (he ▸ hs)
    rcases others other hne with hr | hr <;> rw [hr] at hs
    · exact (List.mem_cons.1 (h.loading other hs)).resolve_left hne
    · simp at hs

theorem expand {w : Workspace} (h : Owned ids w.registry) (l : Loader) (request : LoadRequest) :
    Owned (Task.identifiers (ModuleGraph.expand l request w).1.leaves ++ ids)
      (ModuleGraph.expand l request w).2.registry := by
  rw [identifiers_expand]
  exact h.begin (nodup_dispatched _ _) (fun id => mayLoad_of_mem_dispatched)
    (status?_expand l request w)

theorem noted {w : Workspace} {b : Branch} (h : Owned (b.identifier :: ids) w.registry)
    (fetched : Fetched) : Owned ids (b.noted fetched w).registry := by
  refine h.finish ?_ fun other _ => ?_
  · simp [status?_noted]
  · rw [status?_noted]
    split <;> simp

end Owned

/-! ### Steps -/

variable {answers : Answers} {e : Event} {t t' : Task} {w w' : Workspace}

theorem Move.owned {ids : List String} (h : Move answers e t w t' w')
    (ho : Owned (Task.identifiers t.leaves ++ ids) w.registry) :
    Owned (Task.identifiers t'.leaves ++ ids) w'.registry := by
  cases h with
  | load l request => exact ho.expand l request
  | start b delivery now _ => exact ho
  | receive b answer due =>
    have hb : Owned (b.identifier :: ids) w.registry := ho
    cases answer with
    | error cause =>
      refine hb.finish ?_ fun other hne => .inl ?_
      · simp [Branch.receive]
      · simp [Branch.receive, Ne.symm hne]
    | ok fetched =>
      exact receive_cases
        (P := fun r => Owned (Task.identifiers r.1.leaves ++ ids) r.2.registry)
        (hb.noted fetched).expand (hb.noted fetched)

theorem Step.owned (h : Step answers e t w t' w') (ho : Owned t.inFlight w.registry) :
    Owned t'.inFlight w'.registry := by
  obtain ⟨leaf, new, ids, hm, ht, ht'⟩ := h.inFlight_perm
  exact (hm.owned (ho.of_perm ht)).of_perm ht'.symm

theorem Run.owned {ms : List Moment} (h : Run answers ms t w t' w')
    (ho : Owned t.inFlight w.registry) : Owned t'.inFlight w'.registry :=
  h.invariant (P := fun t w => Owned t.inFlight w.registry) (fun hs => hs.owned) ho

/-! ### Loads from the beginning -/

variable {calls : List (Loader × LoadRequest)} {ms : List Moment}

/-- Loads that have not begun own what is under way, where nothing is. -/
theorem owned_loads (idle : ∀ id, w.registry.status? id ≠ some .loading) :
    Owned (Task.loads calls).inFlight w.registry := by
  rw [Task.inFlight_loads]
  exact .of_no_loading idle

theorem owned_of_loads (idle : ∀ id, w.registry.status? id ≠ some .loading)
    (h : Run answers ms (.loads calls) w t' w') : Owned t'.inFlight w'.registry :=
  h.owned (owned_loads idle)

/-- Exactly one branch of the calls is under way for an identifier, and the call it
belongs to has not settled. -/
def HasOneOwner (calls : List Task) (id : String) : Prop :=
  ∃ before call after, calls = before ++ call :: after ∧ call.outcome? = none ∧
    call.inFlight.count id = 1 ∧ ∀ other ∈ before ++ after, id ∉ other.inFlight

theorem hasOneOwner_of_mem {tasks : List Task} {id : String}
    (hnodup : (Task.joined tasks).inFlight.Nodup) (hid : id ∈ (Task.joined tasks).inFlight) :
    HasOneOwner tasks id := by
  obtain ⟨call, hc, hi⟩ := (Task.mem_inFlight_joined id tasks).1 hid
  obtain ⟨before, after, rfl⟩ := List.append_of_mem hc
  rw [Task.inFlight_joined_append, Task.inFlight_joined_cons] at hnodup
  obtain ⟨-, hrest, hbefore⟩ := List.nodup_append'.1 hnodup
  obtain ⟨hcall, -, hafter⟩ := List.nodup_append'.1 hrest
  refine ⟨before, call, after, rfl, ?_, List.count_eq_one_of_mem hcall hi, fun other ho hm => ?_⟩
  · rw [← Option.not_isSome_iff_eq_none, Task.isSome_outcome?]
    intro hl
    simp [Task.inFlight, hl] at hi
  · rcases List.mem_append.1 ho with ho | ho
    · exact hbefore ((Task.mem_inFlight_joined id before).2 ⟨other, ho, hm⟩)
        (List.mem_append_left _ hi)
    · exact hafter hi ((Task.mem_inFlight_joined id after).2 ⟨other, ho, hm⟩)

/-- **What is loading has an owner.** However the calls overlap, an identifier that is
marked as loading belongs to exactly one branch under way, of a call that has not
settled; once all calls have settled nothing is marked as loading. -/
theorem loading_owned (idle : ∀ id, w.registry.status? id ≠ some .loading)
    (h : Run answers ms (.loads calls) w t' w') :
    ∃ tasks, t' = .joined tasks ∧ tasks.length = calls.length ∧
      (∀ id, w'.registry.status? id = some .loading → HasOneOwner tasks id) ∧
      ((∀ call ∈ tasks, call.outcome? ≠ none) →
        ∀ id, w'.registry.status? id ≠ some .loading) := by
  have ho := owned_of_loads idle h
  obtain ⟨tasks, rfl, hlen⟩ := h.joined_inv
  have howner : ∀ id, w'.registry.status? id = some .loading → HasOneOwner tasks id :=
    fun id hs => hasOneOwner_of_mem ho.nodup (ho.loading id hs)
  refine ⟨tasks, rfl, by simpa using hlen, howner, fun hsettled id hs => ?_⟩
  obtain ⟨before, call, after, rfl, hnone, -, -⟩ := howner id hs
  exact hsettled call (by simp) hnone

/-- Two calls under way, each of which owns what it has marked. -/
theorem loading_owned_importBeside : ∃ ms t' w',
    Run (fun _ _ => True) ms
      (twoLoads { fetches := true } .typescript importBeside "/a" "/b/c") {} t' w' ∧
    w'.registry.status? "/x" = some .loading ∧ w'.registry.status? "/b/x" = some .loading ∧
    ∃ tasks, t' = .joined tasks ∧ HasOneOwner tasks "/x" ∧ HasOneOwner tasks "/b/x" := by
  have idle : ∀ id, ({} : Workspace).registry.status? id ≠ some .loading := fun _ => by
    simp [Registry.status?]
  obtain ⟨ms, w', h, hs, -⟩ := exists_run_importBeside (fun _ _ => True) (.error (.host ""))
    (.error (.host "")) (w := {}) (fun _ => rfl) trivial trivial
  obtain ⟨tasks, ht, -, howner, -⟩ := loading_owned idle h
  exact ⟨ms, _, w', h, by simp [hs], by simp [hs], tasks, ht, howner "/x" (by simp [hs]),
    howner "/b/x" (by simp [hs])⟩

end ModuleGraph
