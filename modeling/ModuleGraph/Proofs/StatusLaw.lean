/-
# The law of statuses

An identifier is absent, then loading, then loaded or failed, and only a failed one
begins again. A run keeps this law, with every fetch that is under way marked as
loading, as long as no answer is redirected onto an identifier whose own fetch is
under way. One that is marks that identifier as loaded before its time: what is
loaded may then still fail, which the law forbids.

Key definitions: `LoadStatus.Advances`, `Event.redirect?`, `states`, `KeepsLaw`.
Key theorems: `keepsLaw_iff`, `not_keepsLaw_importBeside`.
-/
import Mathlib.Logic.Relation
import ModuleGraph.Proofs.Ownership
import ModuleGraph.Session

namespace ModuleGraph

/-! ### The law -/

namespace LoadStatus

/-- How the status of an identifier may change at once. -/
inductive Advance : Option LoadStatus → Option LoadStatus → Prop where
  | begin : Advance none (some loading)
  | succeed : Advance (some loading) (some success)
  | fail : Advance (some loading) (some error)
  | retry : Advance (some error) (some loading)

/-- How it may change over time: a step may write it more than once. -/
abbrev Advances := Relation.ReflTransGen Advance

theorem advances_to_loading : ∀ {s : Option LoadStatus}, s ≠ some success →
    Advances s (some loading)
  | none, _ => .single .begin
  | some loading, _ => .refl
  | some error, _ => .single .retry
  | some success, h => absurd rfl h

theorem advances_from_loading : ∀ {s : Option LoadStatus}, s ≠ none → Advances (some loading) s
  | none, h => absurd rfl h
  | some loading, _ => .refl
  | some error, _ => .single .fail
  | some success, _ => .single .succeed

/-- A status never becomes absent, and what is loaded stays so; nothing else is
excluded over time. -/
theorem advances_iff (s s' : Option LoadStatus) :
    Advances s s' ↔ s = s' ∨ s ≠ some success ∧ s' ≠ none := by
  constructor
  · intro h
    induction h with
    | refl => exact .inl rfl
    | tail _ h ih =>
      refine .inr ⟨?_, by cases h <;> simp⟩
      rintro rfl
      rcases ih with rfl | ih
      · cases h
      · exact ih.1 rfl
  · rintro (rfl | ⟨hs, hs'⟩)
    · exact .refl
    · exact (advances_to_loading hs).trans (advances_from_loading hs')

theorem eq_of_advances_success {s : Option LoadStatus} (h : Advances (some success) s) :
    s = some success := by
  simpa [eq_comm] using (advances_iff _ _).1 h

end LoadStatus

open LoadStatus

/-- The other identifier onto which an answer is redirected. -/
def Event.redirect? : Event → Option String
  | .receive b (.ok fetched) =>
    if b.resolved fetched = b.identifier then none else some (b.resolved fetched)
  | _ => none

theorem Event.redirect?_eq_some {e : Event} {id : String} : e.redirect? = some id ↔
    ∃ b fetched, e = .receive b (.ok fetched) ∧ b.resolved fetched ≠ b.identifier ∧
      b.resolved fetched = id := by
  constructor
  · intro h
    cases e with
    | load l request => simp [redirect?] at h
    | start b a => simp [redirect?] at h
    | receive b a =>
      cases a with
      | error cause => simp [redirect?] at h
      | ok fetched =>
        by_cases hr : b.resolved fetched = b.identifier
        · simp [redirect?, hr] at h
        · exact ⟨b, fetched, rfl, hr, by simpa [redirect?, hr] using h⟩
  · rintro ⟨b, fetched, rfl, hr, rfl⟩
    exact if_neg hr

/-- The states that a run passes through, its last one included. -/
def states (ms : List Moment) (t : Task) (w : Workspace) : List (Task × Workspace) :=
  ms.map (fun m => (m.task, m.workspace)) ++ [(t, w)]

/-- What is under way is loading, and statuses change as they may. -/
structure KeepsLaw (states : List (Task × Workspace)) : Prop where
  loading : ∀ s ∈ states, ∀ id ∈ s.1.inFlight, s.2.registry.status? id = some .loading
  advances : states.Pairwise fun s s' =>
    ∀ id, Advances (s.2.registry.status? id) (s'.2.registry.status? id)

theorem KeepsLaw.tail {s : Task × Workspace} {states : List (Task × Workspace)}
    (h : KeepsLaw (s :: states)) : KeepsLaw states :=
  ⟨fun s hs => h.loading s (List.mem_cons_of_mem _ hs), (List.pairwise_cons.1 h.advances).2⟩

/-! ### Steps -/

theorem advances_expand (l : Loader) (request : LoadRequest) (w : Workspace) (id : String) :
    Advances (w.registry.status? id) ((expand l request w).2.registry.status? id) := by
  rw [status?_expand, advances_iff]
  split
  · next h =>
    have hf := (Registry.mayLoad_eq_true_iff ..).1 (mayLoad_of_mem_dispatched h)
    refine .inr ⟨fun hs => ?_, by simp⟩
    simp [hs] at hf
  · exact .inl rfl

theorem advances_noted (b : Branch) (fetched : Fetched) (w : Workspace) (id : String) :
    Advances (w.registry.status? id) ((b.noted fetched w).registry.status? id) := by
  rw [status?_noted, advances_iff]
  split
  · by_cases h : w.registry.status? id = some .success <;> simp [h]
  · exact .inl rfl

/-- Statuses change as they may at every answer that brings a text. -/
theorem advances_receive (b : Branch) (fetched : Fetched) (w : Workspace) (id : String) :
    Advances (w.registry.status? id) ((b.receive (.ok fetched) w).2.registry.status? id) :=
  receive_cases (P := fun r => Advances (w.registry.status? id) (r.2.registry.status? id))
    (fun _ _ => (advances_noted b fetched w id).trans (advances_expand ..))
    (advances_noted b fetched w id)

variable {answers : Answers} {e : Event} {t t' : Task} {w w' : Workspace} {ms : List Moment}

theorem loading_expand {ids : List String} (l : Loader) (request : LoadRequest)
    (h : ∀ id ∈ ids, w.registry.status? id = some .loading) :
    ∀ id ∈ Task.identifiers (expand l request w).1.leaves ++ ids,
      (expand l request w).2.registry.status? id = some .loading := by
  intro id hid
  rw [status?_expand]
  split
  · rfl
  · next hn =>
    rw [identifiers_expand] at hid
    exact h id ((List.mem_append.1 hid).resolve_left hn)

theorem Move.keepsLaw {ids : List String} (h : Move answers e t w t' w')
    (hnodup : (Task.identifiers t.leaves ++ ids).Nodup)
    (hl : ∀ id ∈ Task.identifiers t.leaves ++ ids, w.registry.status? id = some .loading)
    (hr : ∀ id, e.redirect? = some id → id ∉ ids) :
    (∀ id ∈ Task.identifiers t'.leaves ++ ids, w'.registry.status? id = some .loading) ∧
      ∀ id, Advances (w.registry.status? id) (w'.registry.status? id) := by
  cases h with
  | load l request => exact ⟨loading_expand l request hl, advances_expand l request w⟩
  | start b delivery now _ => exact ⟨hl, fun _ => .refl⟩
  | receive b answer due =>
    have hb : b.identifier ∉ ids := (List.nodup_cons.1 hnodup).1
    have hown : w.registry.status? b.identifier = some .loading := hl _ List.mem_cons_self
    have hids : ∀ id ∈ ids, w.registry.status? id = some .loading := fun id hid =>
      hl id (List.mem_cons_of_mem _ hid)
    cases answer with
    | error cause =>
      refine ⟨fun id hid => ?_, fun id => ?_⟩
      · have hne : b.identifier ≠ id := fun he => hb (he ▸ hid)
        simpa [Branch.receive, hne] using hids id hid
      · by_cases he : b.identifier = id
        · subst he
          simpa [Branch.receive, hown] using Relation.ReflTransGen.single Advance.fail
        · simp [Branch.receive, he, Relation.ReflTransGen.refl]
    | ok fetched =>
      refine ⟨?_, advances_receive b fetched w⟩
      have hnoted : ∀ id ∈ ids, (b.noted fetched w).registry.status? id = some .loading := by
        intro id hid
        have hres : id ≠ b.resolved fetched := by
          rintro rfl
          refine hr _ (Event.redirect?_eq_some.2 ⟨b, fetched, rfl, fun he => ?_, rfl⟩) hid
          exact hb (he ▸ hid)
        have hne : id ≠ b.identifier := fun he => hb (he ▸ hid)
        simpa [status?_noted, hres, hne] using hids id hid
      exact receive_cases (P := fun r => ∀ id ∈ Task.identifiers r.1.leaves ++ ids,
          r.2.registry.status? id = some .loading)
        (fun l request => loading_expand l request hnoted) hnoted

theorem Step.keepsLaw (h : Step answers e t w t' w') (hnodup : t.inFlight.Nodup)
    (hl : ∀ id ∈ t.inFlight, w.registry.status? id = some .loading)
    (hr : ∀ id, e.redirect? = some id → id ∉ t.inFlight) :
    (∀ id ∈ t'.inFlight, w'.registry.status? id = some .loading) ∧
      ∀ id, Advances (w.registry.status? id) (w'.registry.status? id) := by
  obtain ⟨leaf, new, ids, hm, ht, ht'⟩ := h.inFlight_perm
  obtain ⟨hloading, hadv⟩ := hm.keepsLaw (ht.nodup_iff.1 hnodup)
    (fun id hid => hl id (ht.mem_iff.2 hid))
    (fun id he hid => hr id he (ht.mem_iff.2 (List.mem_append_right _ hid)))
  exact ⟨fun id hid => hloading id (ht'.mem_iff.1 hid), hadv⟩

/-- What an answer is redirected onto is marked as loaded, and whatever is under way
for it goes on. -/
theorem Step.redirect_marks (h : Step answers e t w t' w') {id : String}
    (he : e.redirect? = some id) :
    w'.registry.status? id = some .success ∧ (id ∈ t.inFlight → id ∈ t'.inFlight) := by
  obtain ⟨b, fetched, rfl, hr, rfl⟩ := Event.redirect?_eq_some.1 he
  obtain ⟨-, rfl⟩ := h.receive_inv
  refine ⟨?_, fun hid => ?_⟩
  · have hmarked : (b.noted fetched w).registry.status? (b.resolved fetched) =
        some .success := by simp [status?_noted]
    exact receive_cases
      (P := fun r => r.2.registry.status? (b.resolved fetched) = some .success)
      (fun _ _ => eq_of_advances_success (hmarked ▸ advances_expand ..)) hmarked
  · rcases h.mem_inFlight hid with hid | ⟨b', a, heq, hb⟩
    · exact hid
    · cases heq
      exact absurd hb.symm hr

/-! ### Runs -/

theorem Run.states_eq_cons (h : Run answers ms t w t' w') :
    ∃ rest, states ms t' w' = (t, w) :: rest := by
  cases h with
  | refl => exact ⟨[], rfl⟩
  | head _ _ => exact ⟨_, rfl⟩

theorem Run.keepsLaw (h : Run answers ms t w t' w') :
    Owned t.inFlight w.registry →
      (∀ id ∈ t.inFlight, w.registry.status? id = some .loading) →
      (∀ m ∈ ms, ∀ id, m.event.redirect? = some id → id ∉ m.task.inFlight) →
      KeepsLaw (states ms t' w') := by
  induction h with
  | refl t w =>
    intro _ hl _
    exact ⟨fun s hs => by rw [List.mem_singleton.1 hs]; exact hl, List.pairwise_singleton _ _⟩
  | @head e ms t t₁ t' w w₁ w' hs hrest ih =>
    -- the first state comes before the second one, and that before all others
    intro ho hl hr
    obtain ⟨hl₁, hadv⟩ := hs.keepsLaw ho.nodup hl (hr _ List.mem_cons_self)
    have hlaw := ih (hs.owned ho) hl₁ fun m hm => hr m (List.mem_cons_of_mem _ hm)
    obtain ⟨rest, heq⟩ := hrest.states_eq_cons
    have hfrom : ∀ s ∈ rest, ∀ id,
        Advances (w₁.registry.status? id) (s.2.registry.status? id) := by
      have hp := hlaw.advances
      rw [heq] at hp
      exact (List.pairwise_cons.1 hp).1
    refine ⟨fun s hm => ?_, List.pairwise_cons.2 ⟨fun s hm id => ?_, hlaw.advances⟩⟩
    · rcases List.mem_cons.1 hm with rfl | hm
      · exact hl
      · exact hlaw.loading s hm
    · change s ∈ states ms t' w' at hm
      rw [heq] at hm
      rcases List.mem_cons.1 hm with rfl | hm
      · exact hadv id
      · exact (hadv id).trans (hfrom s hm id)

theorem Run.not_redirected (h : Run answers ms t w t' w') : KeepsLaw (states ms t' w') →
    ∀ m ∈ ms, ∀ id, m.event.redirect? = some id → id ∉ m.task.inFlight := by
  induction h with
  | refl => simp
  | @head e ms t t₁ t' w w₁ w' hs hrest ih =>
    intro hlaw m hm id he hid
    rcases List.mem_cons.1 hm with rfl | hm
    · obtain ⟨hmarked, hin⟩ := hs.redirect_marks he
      obtain ⟨rest, heq⟩ := hrest.states_eq_cons
      have hfirst : (t₁, w₁) ∈ states ms t' w' := by
        rw [heq]
        exact List.mem_cons_self
      have hl := hlaw.loading (t₁, w₁) (List.mem_cons_of_mem _ hfirst) id (hin hid)
      simp [hmarked] at hl
    · exact ih hlaw.tail m hm id he hid

/-- **When statuses keep their law.** However the calls overlap, every fetch under way
is marked as loading and statuses change as they may, exactly as long as no answer
is redirected onto an identifier whose own fetch is under way. -/
theorem keepsLaw_iff {calls : List (Loader × LoadRequest)}
    (idle : ∀ id, w.registry.status? id ≠ some .loading)
    (h : Run answers ms (.loads calls) w t' w') :
    KeepsLaw (states ms t' w') ↔
      ∀ m ∈ ms, ∀ id, m.event.redirect? = some id → id ∉ m.task.inFlight := by
  refine ⟨h.not_redirected, h.keepsLaw ?_ ?_⟩ <;> rw [Task.inFlight_loads]
  · exact .of_no_loading idle
  · simp

/-- An answer that is redirected onto what has failed keeps the law. -/
theorem keepsLaw_importBeside : ∃ ms t' w',
    Run (fun _ _ => True) ms
      (twoLoads { fetches := true } .typescript importBeside "/a" "/b/c") {} t' w' ∧
    (∃ m ∈ ms, m.event.redirect? = some "/b/x") ∧ KeepsLaw (states ms t' w') := by
  obtain ⟨ms, w, h, hs, -, hearly⟩ := exists_run_importBeside (fun _ _ => True)
    (.ok ⟨"", .renamed "/b/x"⟩) (.error (.host "")) (w := {}) (fun _ => rfl) trivial trivial
  have idle : ∀ id, ({} : Workspace).registry.status? id ≠ some .loading := fun _ => by
    simp [Registry.status?]
  set b := branchBeside "/a"
  set b' := branchBeside "/b/c"
  have hb : b.identifier = "/x" := identifier_branchBeside_top
  have hb' : b'.identifier = "/b/x" := identifier_branchBeside_below
  set first := firstAnswered b b' (.ok ⟨"", .renamed "/b/x"⟩) (.error (.host "")) w
  have hredirect : first.event.redirect? = some "/b/x" := by
    have hres : b.resolved ⟨"", .renamed "/b/x"⟩ = "/b/x" := rfl
    simp [first, firstAnswered, Event.redirect?, hres, hb]
  have hinFlight : first.task.inFlight = ["/x"] := by
    rw [← hb]
    rfl
  have hrun := h.trans (run_receive b b' (.ok ⟨"", .renamed "/b/x"⟩) (.error (.host "")) w _)
  refine ⟨_, _, _, hrun, ⟨first, by simp [first], hredirect⟩,
    (keepsLaw_iff idle hrun).2 fun m hm id he => ?_⟩
  rcases List.mem_append.1 hm with hm | hm
  · cases hevent : m.event with
    | receive b a => exact absurd hevent (hearly m hm b a)
    | _ => simp [hevent, Event.redirect?] at he
  · simp only [List.mem_cons, List.not_mem_nil, or_false] at hm
    rcases hm with rfl | rfl
    · simp [secondAnswered, Event.redirect?] at he
    · obtain rfl : "/b/x" = id := Option.some.inj (hredirect.symm.trans he)
      change "/b/x" ∉ first.task.inFlight
      rw [hinFlight]
      decide

/-- Below, a module that is known as `/x`; at the top, one that cannot be served, which
takes longer to turn out. -/
def renamedOntoFailing : ModuleSource :=
  .catalog [("/x", { text := "", failure := some (.notFound "/x"), delay := 20 }),
    ("/b/x", { text := "export const x = 1;", hint := .renamed "/x", delay := 10 })]

/-- The module at the top is marked as loaded while its fetch is under way, and fails
afterwards. -/
theorem not_keepsLaw_importBeside : ∃ ms t' w',
    Run renamedOntoFailing.fetcher.answers ms
      (twoLoads { fetches := true } .typescript importBeside "/a" "/b/c") {} t' w' ∧
    t'.outcome?.isSome ∧
    (∃ m ∈ ms, "/x" ∈ m.task.inFlight ∧
      m.workspace.registry.status? "/x" = some .success) ∧
    w'.registry.status? "/x" = some .error ∧ ¬ KeepsLaw (states ms t' w') := by
  have hmissing : renamedOntoFailing.fetcher.answers (branchBeside "/a").request
      (.error (.notFound "/x")) := by
    simp [Fetcher.answers, Branch.request, relativePath_branchBeside_top, renamedOntoFailing,
      ModuleSource.fetcher, ModuleSource.fromCatalog, Table.get?]
  have hrenamed : renamedOntoFailing.fetcher.answers (branchBeside "/b/c").request
      (.ok ⟨"export const x = 1;", .renamed "/x"⟩) := by
    simp [Fetcher.answers, Branch.request, relativePath_branchBeside_below, renamedOntoFailing,
      ModuleSource.fetcher, ModuleSource.fromCatalog, Table.get?]
  obtain ⟨ms, w, h, hs, -⟩ := exists_run_importBeside renamedOntoFailing.fetcher.answers
    _ _ (w := {}) (fun _ => rfl) hmissing hrenamed
  set b := branchBeside "/a"
  set b' := branchBeside "/b/c"
  have hb : b.identifier = "/x" := identifier_branchBeside_top
  have hb' : b'.identifier = "/b/x" := identifier_branchBeside_below
  have hres : b'.resolved ⟨"export const x = 1;", .renamed "/x"⟩ = "/x" := rfl
  have hnot : ¬ b'.Admits ⟨"export const x = 1;", .renamed "/x"⟩ w.registry := by
    simp [Branch.Admits, hres, hb', Registry.mayLoad_eq_true_iff, hs]
  set first := firstAnswered b b' (.error (.notFound "/x"))
    (.ok ⟨"export const x = 1;", .renamed "/x"⟩) w
  have hmarked : first.workspace.registry.status? "/x" = some .success := by
    simp [first, firstAnswered, receive_of_not_admits hnot, status?_noted, hres]
  have hfails : (b.receive (.error (.notFound "/x")) first.workspace).2.registry.status? "/x" =
      some .error := by simp [Branch.receive, hb]
  have hunderWay : "/x" ∈ first.task.inFlight := by
    rw [← hb]
    exact List.mem_cons_self
  have hrun := h.trans (run_receive b b' (.error (.notFound "/x"))
    (.ok ⟨"export const x = 1;", .renamed "/x"⟩) w _)
  have hsettled : (withinLoads (b.receive (.error (.notFound "/x")) first.workspace).1
      (b'.receive (.ok ⟨"export const x = 1;", .renamed "/x"⟩) w).1).outcome?.isSome := by
    rw [receive_of_not_admits hnot]
    rfl
  refine ⟨_, _, _, hrun, hsettled, ⟨first, by simp [first], hunderWay, hmarked⟩, hfails,
    fun hlaw => ?_⟩
  have hl := hlaw.loading (first.task, first.workspace)
    (List.mem_append_left _ (List.mem_map_of_mem (by simp [first]))) "/x" hunderWay
  simp [hmarked] at hl

end ModuleGraph
