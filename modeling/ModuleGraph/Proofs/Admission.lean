/-
# What is loaded is loaded once

A text that is fetched is loaded under the identifier it leads to only if it is
admitted there. That identifier is done with from then on (`Finished`), so no text is
admitted to it again: not by a fetch of its own, since none begins, nor by an answer
that is redirected onto it, since it is not free. What is registered with the service
is what is admitted and not empty, in the order in which it is (`Run.history`).

Key definitions: `Moment.admitted?`, `Moment.expands?`, `Moment.registers?`.
Key theorems: `Run.nodup_admitted`, `Run.history`, `registered_once`.
-/
import ModuleGraph.Proofs.Finality

namespace ModuleGraph

/-! ### What a step loads -/

instance (b : Branch) (fetched : Fetched) (r : Registry) : Decidable (b.Admits fetched r) :=
  inferInstanceAs (Decidable (_ ∨ _))

/-- The load of what was fetched. -/
def Branch.continuation (b : Branch) (fetched : Fetched) : LoadRequest :=
  ⟨fetched.text, b.resolved fetched, b.language, true⟩

namespace Moment

/-- The answer whose text is admitted. -/
def admitted? (m : Moment) : Option (Branch × Fetched) :=
  match m.event with
  | .receive b (.ok fetched) =>
    if b.Admits fetched m.workspace.registry then some (b, fetched) else none
  | _ => none

/-- The load that is expanded. -/
def expands? (m : Moment) : Option (Loader × LoadRequest) :=
  match m.event with
  | .load l request => some (l, request)
  | _ => m.admitted?.map fun p => (p.1.loader, p.1.continuation p.2)

/-- The load whose text is registered. -/
def registers? (m : Moment) : Option (Loader × LoadRequest) :=
  m.expands?.filter fun p => p.2.declaration && !p.2.text.isEmpty

theorem admitted?_eq_some {m : Moment} {b : Branch} {fetched : Fetched} :
    m.admitted? = some (b, fetched) ↔
      m.event = .receive b (.ok fetched) ∧ b.Admits fetched m.workspace.registry := by
  unfold admitted?
  cases he : m.event with
  | load l request => simp
  | start b' a => simp
  | receive b' a =>
    cases a with
    | error cause => simp
    | ok fetched' =>
      by_cases ha : b'.Admits fetched' m.workspace.registry
      · simp only [if_pos ha, Option.some.injEq, Prod.mk.injEq, Event.receive.injEq,
          Except.ok.injEq]
        refine ⟨fun h => ⟨h, ?_⟩, fun h => h.1⟩
        rwa [← h.1, ← h.2]
      · simp only [if_neg ha, reduceCtorEq, Event.receive.injEq, Except.ok.injEq, false_iff]
        rintro ⟨⟨rfl, rfl⟩, h⟩
        exact ha h

end Moment

/-- The identifiers to which texts are admitted. -/
def admitted (ms : List Moment) : List String :=
  (ms.filterMap Moment.admitted?).map fun p => p.1.resolved p.2

theorem mem_admitted {ms : List Moment} {id : String} :
    id ∈ admitted ms ↔ ∃ m ∈ ms, ∃ b fetched, m.event = .receive b (.ok fetched) ∧
      b.Admits fetched m.workspace.registry ∧ b.resolved fetched = id := by
  simp only [admitted, List.mem_map, List.mem_filterMap, Prod.exists, Moment.admitted?_eq_some]
  constructor
  · rintro ⟨b, fetched, ⟨m, hm, he, ha⟩, hid⟩
    exact ⟨m, hm, b, fetched, he, ha, hid⟩
  · rintro ⟨m, hm, b, fetched, he, ha, hid⟩
    exact ⟨b, fetched, ⟨m, hm, he, ha⟩, hid⟩

variable {answers : Answers} {e : Event} {t t' : Task} {w w' : Workspace} {ms : List Moment}
  {b : Branch} {fetched : Fetched} {id : String} {others : List String}

/-! ### Admission -/

/-- Nothing is admitted to what is done with. -/
theorem Step.resolved_ne (h : Step answers (.receive b (.ok fetched)) t w t' w')
    (hf : Finished id t w) (ha : b.Admits fetched w.registry) : b.resolved fetched ≠ id := by
  rintro rfl
  rcases ha with hres | hfree
  · obtain ⟨⟨due, hleaf⟩, -⟩ := h.receive_inv
    exact hf.idle (hres ▸ Task.mem_inFlight hleaf rfl)
  · exact not_free_of_success hf.success hfree

theorem Run.not_mem_admitted (h : Run answers ms t w t' w') (hf : Finished id t w) :
    id ∉ admitted ms := by
  rw [mem_admitted]
  rintro ⟨m, hm, b, fetched, he, ha, hid⟩
  obtain ⟨before, t₁, w₁, hbefore, hstep⟩ := h.step_of_mem hm
  rw [he] at hstep
  exact hstep.resolved_ne (hbefore.finished hf) ha hid

/-- No identifier is admitted twice. -/
theorem Run.nodup_admitted (h : Run answers ms t w t' w') :
    Owned (t.inFlight ++ others) w.registry → (admitted ms).Nodup := by
  induction h with
  | refl => exact fun _ => List.nodup_nil
  | @head e ms t t₁ t' w w₁ w' hs hrest ih =>
    intro ho
    have hnodup := ih (hs.owned_beside ho)
    cases hadm : (⟨e, t, w⟩ : Moment).admitted? with
    | none => simpa [admitted, hadm] using hnodup
    | some p =>
      obtain ⟨b, fetched⟩ := p
      obtain ⟨rfl, ha⟩ := Moment.admitted?_eq_some.1 hadm
      have hnew : b.resolved fetched ∉ admitted ms :=
        hrest.not_mem_admitted (hs.finished_of_receive ho (.inr ⟨ha, rfl⟩))
      have hcons : admitted (⟨.receive b (.ok fetched), t, w⟩ :: ms) =
          b.resolved fetched :: admitted ms := by simp [admitted, hadm]
      rw [hcons]
      exact List.nodup_cons.2 ⟨hnew, hnodup⟩

/-! ### Registration -/

/-- What the service is told of a load. -/
def Loader.registration (l : Loader) (request : LoadRequest) : Registration :=
  ⟨l.declarationOf request.identifier, request.language, request.text⟩

/-- A step expands a load, or leaves the service as it is. -/
theorem Step.expands (h : Step answers e t w t' w') :
    (∃ l request, (⟨e, t, w⟩ : Moment).expands? = some (l, request) ∧
      w'.host = w.host.map (l.announce request)) ∨
    (⟨e, t, w⟩ : Moment).expands? = none ∧ w'.host = w.host := by
  obtain ⟨_, _, _, _, hm, -, -⟩ := h.splice
  cases hm with
  | load l request => exact .inl ⟨l, request, rfl, host_expand l request w⟩
  | start b delivery now _ => exact .inr ⟨rfl, rfl⟩
  | receive b answer due =>
    cases answer with
    | error cause => exact .inr ⟨rfl, rfl⟩
    | ok fetched =>
      by_cases ha : b.Admits fetched w.registry
      · refine .inl ⟨b.loader, b.continuation fetched, ?_, ?_⟩
        · simp [Moment.expands?, Moment.admitted?, ha]
        · rw [receive_of_admits ha, host_expand]
          rfl
      · refine .inr ⟨?_, ?_⟩
        · simp [Moment.expands?, Moment.admitted?, ha]
        · rw [receive_of_not_admits ha]
          rfl

theorem Step.history {s : Service} (h : Step answers e t w t' w') (host : w.host = .memory s) :
    ∃ s', w'.host = .memory s' ∧ s'.history = s.history ++
      ((⟨e, t, w⟩ : Moment).registers?.map fun p => p.1.registration p.2).toList := by
  rcases h.expands with ⟨l, request, he, hw⟩ | ⟨he, hw⟩
  · refine ⟨l.announce request s, by rw [hw, host]; rfl, ?_⟩
    rw [history_announce, Loader.registrations, Moment.registers?, he]
    cases hr : request.declaration && !request.text.isEmpty <;>
      simp [Option.filter, hr, Loader.registration]
  · refine ⟨s, hw.trans host, ?_⟩
    simp [Moment.registers?, he]

/-- What is registered in a run is logged in this order. -/
theorem Run.history (h : Run answers ms t w t' w') : ∀ {s : Service}, w.host = .memory s →
    ∃ s', w'.host = .memory s' ∧ s'.history =
      s.history ++ (ms.filterMap Moment.registers?).map fun p => p.1.registration p.2 := by
  induction h with
  | refl => exact fun host => ⟨_, host, by simp⟩
  | @head e ms t t₁ t' w w₁ w' hs _ ih =>
    intro s host
    obtain ⟨s₁, host₁, hhist₁⟩ := hs.history host
    obtain ⟨s', host', hhist'⟩ := ih host₁
    refine ⟨s', host', ?_⟩
    rw [hhist', hhist₁, List.filterMap_cons]
    cases (⟨e, t, w⟩ : Moment).registers? <;> simp

variable {calls : List (Loader × LoadRequest)}

/-- Nothing becomes a load that has not begun. -/
theorem Move.load_not_mem {leaf new : Task} {l : Loader} {request : LoadRequest}
    (h : Move answers e leaf w new w') : .load l request ∉ new.leaves := by
  have hexpand : ∀ (l' : Loader) (request' : LoadRequest) (w : Workspace),
      .load l request ∉ (expand l' request' w).1.leaves := by
    intro l' request' w hm
    rw [leaves_expand] at hm
    obtain ⟨b, -, hb⟩ := List.mem_map.1 hm
    cases hb
  cases h with
  | load l' request' => exact hexpand l' request' w
  | start b delivery now _ => simp [Branch.start, Task.leaves]
  | receive b answer due =>
    cases answer with
    | error cause => simp [Branch.receive]
    | ok fetched =>
      exact receive_cases (P := fun r => .load l request ∉ r.1.leaves)
        (fun l' request' => hexpand l' request' _) (by simp)

theorem Step.load_mem {l : Loader} {request : LoadRequest}
    (h : Step answers (.load l request) t w t' w') : .load l request ∈ t.leaves := by
  obtain ⟨before, leaf, after, new, hm, ht, -⟩ := h.splice
  cases hm
  simp [ht]

/-- What is expanded without an answer was asked for. -/
theorem Run.mem_calls (h : Run answers ms (.loads calls) w t' w') :
    ∀ m ∈ ms, ∀ l request, m.event = .load l request → (l, request) ∈ calls := by
  have hcalls : ∀ {ms t' w'}, Run answers ms (.loads calls) w t' w' →
      ∀ leaf ∈ t'.leaves, ∀ l request, leaf = .load l request → (l, request) ∈ calls := by
    intro ms t' w' h
    refine h.invariant (P := fun t _ => ∀ leaf ∈ t.leaves, ∀ l request,
      leaf = .load l request → (l, request) ∈ calls) (fun hs ht => ?_) ?_
    · exact hs.forall_leaves
        (fun hm _ x hx l request he => absurd (he ▸ hx) hm.load_not_mem) ht
    · rw [Task.leaves_loads]
      intro leaf hleaf l request he
      obtain ⟨c, hc, rfl⟩ := List.mem_map.1 hleaf
      cases he
      exact hc
  intro m hm l request he
  obtain ⟨before, t₁, w₁, hbefore, hstep⟩ := h.step_of_mem hm
  rw [he] at hstep
  exact hcalls hbefore _ hstep.load_mem l request rfl

/-- Where only fetched texts are declarations, what is registered is admitted. -/
theorem Moment.admitted?_of_registers? {m : Moment} {p : Loader × LoadRequest}
    (files : ∀ l request, m.event = .load l request → request.declaration = false)
    (h : m.registers? = some p) : ∃ b fetched, m.admitted? = some (b, fetched) ∧
      p = (b.loader, b.continuation fetched) := by
  obtain ⟨hp, hd⟩ := Option.filter_eq_some_iff.1 h
  simp only [Bool.and_eq_true] at hd
  cases he : m.event with
  | load l request =>
    obtain rfl : (l, request) = p := by simpa [expands?, he] using hp
    simp [files l request he] at hd
  | start b a => simp [expands?, admitted?, he] at hp
  | receive b a =>
    simp only [expands?, he, Option.map_eq_some_iff, Prod.exists] at hp
    obtain ⟨b, fetched, hadm, rfl⟩ := hp
    exact ⟨b, fetched, hadm, rfl⟩

/-- Of what is admitted, what is registered. -/
theorem registers_sublist {ms : List Moment} (h : ∀ m ∈ ms, ∀ p, m.registers? = some p →
      ∃ b fetched, m.admitted? = some (b, fetched) ∧ p = (b.loader, b.continuation fetched)) :
    ((ms.filterMap Moment.registers?).map fun p => p.2.identifier).Sublist (admitted ms) := by
  induction ms with
  | nil => exact .slnil
  | cons m ms ih =>
    have hrest := ih fun m hm => h m (List.mem_cons_of_mem _ hm)
    have hcons : (admitted ms).Sublist (admitted (m :: ms)) := by
      cases hadm : m.admitted? <;> simp [admitted, hadm]
    cases hreg : m.registers? with
    | none =>
      rw [List.filterMap_cons, hreg]
      exact hrest.trans hcons
    | some p =>
      obtain ⟨b, fetched, hadm, rfl⟩ := h m List.mem_cons_self p hreg
      simp only [List.filterMap_cons, hreg, List.map_cons, admitted, hadm]
      exact hrest.cons_cons _

/-- **Each identifier is registered once.** However the calls overlap, the identifiers
under which texts are registered are distinct, and what is registered is what the
service logs. From the moment on an identifier is loaded in every state, and no fetch
for it begins. -/
theorem registered_once (files : ∀ c ∈ calls, c.2.declaration = false)
    (h : Run answers ms (.loads calls) w t' w') :
    ((ms.filterMap Moment.registers?).map fun p => p.2.identifier).Nodup ∧
      (∀ s, w.host = .memory s → ∃ s', w'.host = .memory s' ∧ s'.history =
        s.history ++ (ms.filterMap Moment.registers?).map fun p => p.1.registration p.2) ∧
      ∀ before m after, ms = before ++ m :: after → ∀ p, m.registers? = some p →
        (∀ s ∈ states after t' w', s.2.registry.status? p.2.identifier = some .success) ∧
          ∀ m' ∈ after, ∀ b a, m'.event = .start b a → b.identifier ≠ p.2.identifier := by
  obtain ⟨others, ho⟩ := exists_owned_loads calls w
  have hadm : ∀ m ∈ ms, ∀ p, m.registers? = some p →
      ∃ b fetched, m.admitted? = some (b, fetched) ∧ p = (b.loader, b.continuation fetched) :=
    fun m hm p => Moment.admitted?_of_registers? fun l request he =>
      files _ (h.mem_calls m hm l request he)
  refine ⟨(h.nodup_admitted ho).sublist (registers_sublist hadm), fun s => h.history, ?_⟩
  rintro before m after rfl p hp
  obtain ⟨b, fetched, hb, rfl⟩ := hadm m (by simp) p hp
  obtain ⟨he, ha⟩ := Moment.admitted?_eq_some.1 hb
  obtain ⟨t₁, w₁, hbefore, hstep, hafter⟩ := h.split
  rw [he] at hstep
  have hdone : Finished (b.resolved fetched) t₁ w₁ :=
    hstep.finished_of_receive (hbefore.owned_beside ho) (.inr ⟨ha, rfl⟩)
  exact ⟨fun s hs => (hafter.finished_states hdone s hs).success, hafter.start_ne hdone⟩

/-- What is below is registered, and an answer that is redirected onto it afterwards is
not. -/
theorem registered_importBeside : ∃ before m m' t' w',
    Run (fun _ _ => True) (before ++ m :: [m'])
      (twoLoads { fetches := true } .typescript importBeside "/a" "/b/c") {} t' w' ∧
    (m.registers?.map fun p => p.2.identifier) = some "/b/x" ∧
    m'.event.redirect? = some "/b/x" ∧
    ∀ s ∈ states [m'] t' w', s.2.registry.status? "/b/x" = some .success := by
  obtain ⟨ms, w, h, -⟩ := exists_run_importBeside (fun _ _ => True)
    (.ok ⟨"2", .renamed "/b/x"⟩) (.ok ⟨"1", .unchanged⟩) (w := {}) (fun _ => rfl) trivial trivial
  set b := branchBeside "/a"
  set b' := branchBeside "/b/c"
  have hb : b.identifier = "/x" := identifier_branchBeside_top
  have hres : b.resolved ⟨"2", .renamed "/b/x"⟩ = "/b/x" := rfl
  have hres' : b'.resolved ⟨"1", .unchanged⟩ = "/b/x" := identifier_branchBeside_below
  have hadm : b'.Admits ⟨"1", .unchanged⟩ w.registry := .inl rfl
  have hrun := h.trans (run_receive b b' (.ok ⟨"2", .renamed "/b/x"⟩) (.ok ⟨"1", .unchanged⟩) w _)
  set m := secondAnswered b b' (.ok ⟨"2", .renamed "/b/x"⟩) (.ok ⟨"1", .unchanged⟩) w
  have hreg : m.registers? = some (b'.loader, b'.continuation ⟨"1", .unchanged⟩) := by
    simp [m, secondAnswered, Moment.registers?, Moment.expands?, Moment.admitted?, hadm,
      Branch.continuation, Option.filter]
  have hlogged := (registered_once (by simp) hrun).2.2 ms m _ rfl _ hreg
  refine ⟨ms, m, _, _, _, hrun, ?_, ?_, fun s hs => ?_⟩
  · rw [hreg]
    exact congrArg some hres'
  · simp [firstAnswered, Event.redirect?, hres, hb]
  · rw [← hres']
    exact hlogged.1 s hs

end ModuleGraph
