/-
# What a moment changes

A step does to what the loads share three things, in this order: it takes note of its
event (`Event.note`), it registers and records the text that it goes on with, if there
is one, and it begins the loads of what that text refers to (`Moment.dispatched`). So
one equation gives the workspace after a step (`Step.workspace_eq`), and one the status
of every identifier (`Step.status?_eq`): loading if its load begins, else what the event
marks it as, else what it was.

Every branch that is dispatched waits, and is fetched once: in a run that leaves nothing
to do an identifier is fetched as often as its load begins. A status never becomes absent
again, and unless a fetch fails what is loading or loaded stays so, so that it is loaded
where a load goes well.

Key definitions: `Event.note`, `Event.mark?`, `Moment.dispatched`, `Task.waiting`,
`fetchedIn`, `begunIn`.
Key theorems: `Step.workspace_eq`, `Step.status?_eq`, `Step.count_eq`,
`Run.count_fetchedIn_of_settled`, `Run.begun_of_receive`, `Run.not_fails`,
`Run.success_of_blocked`, `Run.success_of_expands`.
-/
import ModuleGraph.Proofs.Closure
import ModuleGraph.Proofs.Outcome

namespace ModuleGraph

/-! ### Events -/

namespace Event

/-- The workspace once an event has been taken note of, and before a text is expanded. -/
def note : Event → Workspace → Workspace
  | load .., w => w
  | start b _, w => { w with fetches := w.fetches ++ [b.request] }
  | receive b (.error _), w => { w with registry := w.registry.setStatus b.identifier .error }
  | receive b (.ok fetched), w => b.noted fetched w

/-- What an event marks an identifier as. -/
def mark? : Event → String → Option LoadStatus
  | receive b (.error _), id => if b.identifier = id then some .error else none
  | receive b (.ok fetched), id =>
    if id = b.identifier ∨ id = b.resolved fetched then some .success else none
  | _, _ => none

/-- The identifiers whose fetch begins. -/
def fetched : Event → List String
  | start b _ => [b.identifier]
  | _ => []

/-- The identifiers whose fetch is answered. -/
def answered : Event → List String
  | receive b _ => [b.identifier]
  | _ => []

/-- The fetch of an identifier fails. -/
def Fails (e : Event) (id : String) : Prop :=
  ∃ b cause, e = receive b (.error cause) ∧ b.identifier = id

theorem status?_note (e : Event) (w : Workspace) (id : String) :
    (e.note w).registry.status? id = (e.mark? id).or (w.registry.status? id) := by
  cases e with
  | load l request => rfl
  | start b a => rfl
  | receive b a =>
    cases a with
    | error cause =>
      by_cases h : b.identifier = id <;> simp [note, mark?, h]
    | ok fetched =>
      by_cases h : id = b.identifier ∨ id = b.resolved fetched <;>
        simp [note, mark?, status?_noted, h]

theorem mark?_eq_error {e : Event} {id : String} :
    e.mark? id = some .error ↔ e.Fails id := by
  cases e with
  | load l request => simp [mark?, Fails]
  | start b a => simp [mark?, Fails]
  | receive b a =>
    cases a with
    | error cause => simp [mark?, Fails]
    | ok fetched =>
      by_cases h : id = b.identifier ∨ id = b.resolved fetched <;> simp [mark?, Fails, h]

theorem mark?_eq_success {e : Event} {id : String} : e.mark? id = some .success ↔
    ∃ b fetched, e = receive b (.ok fetched) ∧ (id = b.identifier ∨ id = b.resolved fetched) := by
  cases e with
  | load l request => simp [mark?]
  | start b a => simp [mark?]
  | receive b a =>
    cases a with
    | error cause => by_cases h : b.identifier = id <;> simp [mark?, h]
    | ok fetched =>
      by_cases h : id = b.identifier ∨ id = b.resolved fetched
      · simp only [mark?, if_pos h, true_iff]
        exact ⟨b, fetched, rfl, h⟩
      · simp only [mark?, if_neg h, reduceCtorEq, false_iff]
        rintro ⟨b', fetched', he, h'⟩
        cases he
        exact h h'

theorem mark?_ne_loading (e : Event) (id : String) : e.mark? id ≠ some .loading := by
  cases e with
  | load l request => simp [mark?]
  | start b a => simp [mark?]
  | receive b a =>
    cases a with
    | error cause => by_cases h : b.identifier = id <;> simp [mark?, h]
    | ok fetched =>
      by_cases h : id = b.identifier ∨ id = b.resolved fetched <;> simp [mark?, h]

end Event

/-! ### What begins at a moment -/

namespace Moment

/-- The identifiers whose load begins at a moment: of those that the expanded text refers
to, the free ones. -/
def dispatched (m : Moment) : List String :=
  match m.expands? with
  | some (l, request) => ModuleGraph.dispatched l request.language (l.dependencies request)
      (m.event.note m.workspace).registry
  | none => []

theorem nodup_dispatched (m : Moment) : m.dispatched.Nodup := by
  unfold dispatched
  split
  · exact ModuleGraph.nodup_dispatched _ _
  · exact List.nodup_nil

end Moment

theorem mem_dispatched_iff {l : Loader} {language : Language} {pairs : List (Reference × Candidate)}
    {r : Registry} {id : String} : id ∈ dispatched l language pairs r ↔
      (∃ p ∈ pairs, p.2.identifier = id) ∧ r.mayLoad id = true := by
  constructor
  · intro h
    obtain ⟨b, hb, rfl⟩ := List.mem_map.1 h
    obtain ⟨p, hp, rfl⟩ := mem_dispatch hb
    exact ⟨⟨p, hp, rfl⟩, mayLoad_of_mem_dispatched h⟩
  · rintro ⟨⟨p, hp, rfl⟩, hfree⟩
    by_contra hn
    have hblocked : (dispatch l language pairs r).2.mayLoad p.2.identifier = false :=
      blocked_dispatch hp
    rw [Registry.mayLoad_eq_false_iff, status?_dispatch, if_neg hn] at hblocked
    rw [Registry.mayLoad_eq_true_iff] at hfree
    rcases hfree with hfree | hfree <;> simp [hfree] at hblocked

theorem Moment.mem_dispatched_iff {m : Moment} {id : String} : id ∈ m.dispatched ↔
    ∃ l request, m.expands? = some (l, request) ∧ id ∈ l.targets request ∧
      (m.event.note m.workspace).registry.mayLoad id = true := by
  unfold dispatched
  cases he : m.expands? with
  | none => simp
  | some p =>
    obtain ⟨l, request⟩ := p
    simp [ModuleGraph.mem_dispatched_iff, Loader.targets]

theorem Moment.dispatched_of_admits {b : Branch} {fetched : Fetched} {w : Workspace} (t : Task)
    (h : b.Admits fetched w.registry) :
    (⟨.receive b (.ok fetched), t, w⟩ : Moment).dispatched =
      ModuleGraph.dispatched b.loader b.language (b.loader.dependencies (b.continuation fetched))
        (b.noted fetched w).registry := by
  simp only [Moment.dispatched, Moment.expands?, Moment.admitted?, if_pos h, Option.map_some]
  rfl

theorem Moment.dispatched_of_not_admits {b : Branch} {fetched : Fetched} {w : Workspace} (t : Task)
    (h : ¬ b.Admits fetched w.registry) :
    (⟨.receive b (.ok fetched), t, w⟩ : Moment).dispatched = [] := by
  simp only [Moment.dispatched, Moment.expands?, Moment.admitted?, if_neg h, Option.map_none]

/-- A text is expanded at a moment at which no fetch fails. -/
theorem Moment.not_fails_of_expands {m : Moment} {p : Loader × LoadRequest} {id : String}
    (h : m.expands? = some p) : ¬ m.event.Fails id := by
  rintro ⟨b, cause, he, -⟩
  simp [Moment.expands?, Moment.admitted?, he] at h

variable {answers : Answers} {e : Event} {t t' : Task} {w w' : Workspace} {ms : List Moment}
  {id : String}

/-! ### Steps -/

/-- **What a step changes.** The workspace after a step is the one in which its event has
been taken note of, and if a text goes on from there, its expansion. -/
theorem Step.workspace_eq (h : Step answers e t w t' w') :
    w' = match (⟨e, t, w⟩ : Moment).expands? with
      | some (l, request) => (expand l request (e.note w)).2
      | none => e.note w := by
  obtain ⟨_, _, _, _, hm, -, -⟩ := h.splice
  cases hm with
  | load l request => rfl
  | start b delivery now _ => rfl
  | receive b answer due =>
    cases answer with
    | error cause => rfl
    | ok fetched =>
      by_cases ha : b.Admits fetched w.registry
      · simp only [Moment.expands?, Moment.admitted?, if_pos ha, Option.map_some,
          receive_of_admits ha]
        rfl
      · simp only [Moment.expands?, Moment.admitted?, if_neg ha, Option.map_none,
          receive_of_not_admits ha]
        rfl

/-- What the status of an identifier is after a step. -/
theorem Step.status?_eq (h : Step answers e t w t' w') (id : String) :
    w'.registry.status? id = if id ∈ (⟨e, t, w⟩ : Moment).dispatched then some .loading
      else (e.mark? id).or (w.registry.status? id) := by
  have hw := h.workspace_eq
  unfold Moment.dispatched
  cases he : (⟨e, t, w⟩ : Moment).expands? with
  | none =>
    rw [he] at hw
    simp [hw, e.status?_note]
  | some p =>
    rw [he] at hw
    simp only [hw, status?_expand, e.status?_note]

namespace Task

/-- A branch whose fetch has not begun. -/
def queued? : Task → Option Branch
  | queued b => some b
  | _ => none

/-- The identifiers of the branches among some leaves whose fetch has not begun. -/
def waiting (leaves : List Task) : List String :=
  (leaves.filterMap queued?).map Branch.identifier

@[simp] theorem waiting_nil : waiting [] = [] := rfl

@[simp] theorem waiting_append (a b : List Task) : waiting (a ++ b) = waiting a ++ waiting b := by
  simp [waiting]

@[simp] theorem waiting_cons_load (l : Loader) (request : LoadRequest) (rest : List Task) :
    waiting (load l request :: rest) = waiting rest := rfl

@[simp] theorem waiting_cons_queued (b : Branch) (rest : List Task) :
    waiting (queued b :: rest) = b.identifier :: waiting rest := rfl

@[simp] theorem waiting_cons_fetching (b : Branch) (answer : FetchAnswer) (due : Nat)
    (rest : List Task) : waiting (fetching b answer due :: rest) = waiting rest := rfl

theorem waiting_map_queued : ∀ branches : List Branch,
    waiting (branches.map queued) = branches.map Branch.identifier
  | [] => rfl
  | b :: rest => by simp [waiting_map_queued rest]

theorem waiting_loads (calls : List (Loader × LoadRequest)) :
    waiting (loads calls).leaves = [] := by
  rw [leaves_loads]
  induction calls with
  | nil => rfl
  | cons c rest ih => simpa using ih

end Task

theorem waiting_expand (l : Loader) (request : LoadRequest) (w : Workspace) :
    Task.waiting (expand l request w).1.leaves =
      dispatched l request.language (l.dependencies request) w.registry := by
  rw [leaves_expand, Task.waiting_map_queued, dispatched]

/-- What a leaf that moves leaves behind: for an identifier, what is under way and what is
answered is what was under way and what begins; and what waits and what is fetched is what
waited and what begins. -/
theorem Move.count_eq (h : Move answers e t w t' w') (whole : Task) (id : String) :
    (Task.identifiers t'.leaves).count id + e.answered.count id =
        (Task.identifiers t.leaves).count id + (⟨e, whole, w⟩ : Moment).dispatched.count id ∧
      (Task.waiting t'.leaves).count id + e.fetched.count id =
        (Task.waiting t.leaves).count id + (⟨e, whole, w⟩ : Moment).dispatched.count id := by
  cases h with
  | load l request =>
    rw [identifiers_expand, waiting_expand]
    simp [Event.answered, Event.fetched, Moment.dispatched, Moment.expands?, Event.note,
      Task.leaves]
  | start b delivery now _ =>
    simp [Event.answered, Event.fetched, Moment.dispatched, Moment.expands?, Moment.admitted?,
      Branch.start, Task.leaves]
  | receive b answer due =>
    cases answer with
    | error cause =>
      simp [Event.answered, Event.fetched, Moment.dispatched, Moment.expands?, Moment.admitted?,
        Branch.receive, Task.leaves]
    | ok fetched =>
      by_cases ha : b.Admits fetched w.registry
      · rw [Moment.dispatched_of_admits whole ha, receive_of_admits ha, identifiers_expand,
          waiting_expand]
        simp [Event.answered, Event.fetched, Task.leaves,
          Branch.continuation, Nat.add_comm]
      · rw [Moment.dispatched_of_not_admits whole ha, receive_of_not_admits ha]
        simp [Event.answered, Event.fetched, Task.leaves]

theorem Step.count_eq (h : Step answers e t w t' w') (id : String) :
    t'.inFlight.count id + e.answered.count id =
        t.inFlight.count id + (⟨e, t, w⟩ : Moment).dispatched.count id ∧
      (Task.waiting t'.leaves).count id + e.fetched.count id =
        (Task.waiting t.leaves).count id + (⟨e, t, w⟩ : Moment).dispatched.count id := by
  obtain ⟨before, leaf, after, new, hm, ht, ht'⟩ := h.splice
  obtain ⟨hflight, hwaiting⟩ := hm.count_eq t id
  have hsplit : t.leaves = before ++ leaf.leaves ++ after := by simp [ht, hm.leaves_eq]
  simp only [Task.inFlight, hsplit, ht', Task.identifiers_append, Task.waiting_append,
    List.count_append]
  omega

/-! ### Runs -/

/-- The identifiers whose fetch begins in a run, in this order. -/
def fetchedIn (ms : List Moment) : List String := ms.flatMap fun m => m.event.fetched

/-- The identifiers whose load begins in a run. -/
def begunIn (ms : List Moment) : List String := ms.flatMap Moment.dispatched

@[simp] theorem begunIn_nil : begunIn [] = [] := rfl

@[simp] theorem begunIn_cons (m : Moment) (ms : List Moment) :
    begunIn (m :: ms) = m.dispatched ++ begunIn ms := rfl

@[simp] theorem begunIn_append (before after : List Moment) :
    begunIn (before ++ after) = begunIn before ++ begunIn after := List.flatMap_append

/-- What has been fetched, or waits to be, has begun. -/
theorem Run.count_fetchedIn (h : Run answers ms t w t' w') (id : String) :
    (fetchedIn ms).count id + (Task.waiting t'.leaves).count id =
      (Task.waiting t.leaves).count id + (begunIn ms).count id := by
  induction h with
  | refl => simp [fetchedIn, begunIn]
  | head hs _ ih =>
    obtain ⟨-, hwaiting⟩ := hs.count_eq id
    simp only [fetchedIn, begunIn_cons, List.flatMap_cons, List.count_append] at ih ⊢
    omega

/-- What a run of loads leaves with nothing to do has fetched once each time it began. -/
theorem Run.count_fetchedIn_of_settled {calls : List (Loader × LoadRequest)}
    (h : Run answers ms (.loads calls) w t' w') (settled : t'.leaves = []) (id : String) :
    (fetchedIn ms).count id = (begunIn ms).count id := by
  simpa [settled, Task.waiting_loads] using h.count_fetchedIn id

/-- What is under way has begun in the run, or was under way before. -/
theorem Run.mem_begunIn (h : Run answers ms t w t' w') (hid : id ∈ t'.inFlight) :
    id ∈ t.inFlight ∨ id ∈ begunIn ms := by
  induction h with
  | refl => exact .inl hid
  | @head e ms t t₁ t' w w₁ w' hs _ ih =>
    rcases ih hid with hid | hid
    · obtain ⟨hflight, -⟩ := hs.count_eq id
      have hpos := List.count_pos_iff.2 hid
      by_cases hb : id ∈ (⟨e, t, w⟩ : Moment).dispatched
      · exact .inr (List.mem_append_left _ hb)
      · rw [List.count_eq_zero_of_not_mem hb] at hflight
        exact .inl (List.count_pos_iff.1 (by omega))
    · exact .inr (List.mem_append_right _ hid)

/-- What is received has begun to load. -/
theorem Run.begun_of_receive {calls : List (Loader × LoadRequest)} {m : Moment} {b : Branch}
    {a : FetchAnswer} (h : Run answers ms (.loads calls) w t' w') (hm : m ∈ ms)
    (he : m.event = .receive b a) : b.identifier ∈ begunIn ms := by
  obtain ⟨before, after, rfl⟩ := List.append_of_mem hm
  obtain ⟨t₁, w₁, hbefore, hstep, -⟩ := h.split
  rw [he] at hstep
  obtain ⟨⟨due, hleaf⟩, -⟩ := hstep.receive_inv
  rcases hbefore.mem_begunIn (Task.mem_inFlight hleaf rfl) with hid | hid
  · simp [Task.inFlight_loads] at hid
  · rw [begunIn_append]
    exact List.mem_append_left _ hid

/-! ### Statuses over time -/

/-- A status never becomes absent. -/
theorem Step.status?_ne_none (h : Step answers e t w t' w') (hs : w.registry.status? id ≠ none) :
    w'.registry.status? id ≠ none := by
  rw [h.status?_eq]
  split
  · simp
  · cases e.mark? id <;> simp [hs]

theorem Run.status?_ne_none (h : Run answers ms t w t' w') (hs : w.registry.status? id ≠ none) :
    w'.registry.status? id ≠ none :=
  h.invariant (P := fun _ w => w.registry.status? id ≠ none) (fun hs => hs.status?_ne_none) hs

/-- What is loading or loaded stays so, unless its fetch fails. -/
theorem Step.blocked_of_not_fails (h : Step answers e t w t' w') (hf : ¬ e.Fails id)
    (hb : w.registry.mayLoad id = false) : w'.registry.mayLoad id = false := by
  rw [Registry.mayLoad_eq_false_iff] at hb ⊢
  rw [h.status?_eq]
  split
  · exact .inl rfl
  · cases hm : e.mark? id with
    | none => simpa using hb
    | some status =>
      cases status with
      | loading => exact absurd hm (e.mark?_ne_loading id)
      | success => simp
      | error => exact absurd (Event.mark?_eq_error.1 hm) hf

theorem Run.blocked_of_not_fails (h : Run answers ms t w t' w') :
    (∀ m ∈ ms, ¬ m.event.Fails id) → w.registry.mayLoad id = false →
      w'.registry.mayLoad id = false := by
  induction h with
  | refl => exact fun _ hb => hb
  | head hs _ ih =>
    intro hf hb
    exact ih (fun m hm => hf m (List.mem_cons_of_mem _ hm))
      (hs.blocked_of_not_fails (hf _ List.mem_cons_self) hb)

/-! ### Loads in which nothing fails -/

/-- A step is the move of what stands at some position. -/
theorem Step.exists_at? (h : Step answers e t w t' w') : ∃ p leaf new,
    t.at? p = some leaf ∧ Move answers e leaf w new w' := by
  induction h with
  | move hm => exact ⟨[], _, _, Task.at?_nil _, hm⟩
  | joined before after _ ih =>
    obtain ⟨p, leaf, new, hp, hm⟩ := ih
    exact ⟨before.length :: p, leaf, new, by simpa using hp, hm⟩

/-- Where all went well no fetch has failed: its failure would stand at its position. -/
theorem Run.not_fails (h : Run answers ms t w t' w') (ok : t'.outcome? = some (.ok ())) :
    ∀ m ∈ ms, ∀ id, ¬ m.event.Fails id := by
  rintro m hm id ⟨b, cause, he, -⟩
  obtain ⟨before, t₁, w₁, -, hstep⟩ := h.step_of_mem hm
  rw [he] at hstep
  obtain ⟨p, leaf, new, hp, hmove⟩ := hstep.exists_at?
  cases hmove with
  | receive _ _ due =>
    have hfailed : Failed (states ms t' w') p b cause :=
      ⟨due, (m.task, m.workspace), List.mem_append_left _ (List.mem_map_of_mem hm), hp⟩
    have hdone : ∀ x, t'.at? p = some x → x.leaves = [] := by
      intro x hx
      have hsub := Task.leaves_subset_of_at? hx
      rw [(Task.isSome_outcome? t').1 (Option.isSome_of_eq_some ok)] at hsub
      exact List.subset_nil.1 hsub
    exact Task.verdict_of_outcome? ok p _ (h.at?_of_failed hfailed hdone)

/-- Where nothing is under way, and nothing is elsewhere, nothing is loading. -/
theorem Run.ne_loading (h : Run answers ms t w t' w') (ho : Owned t.inFlight w.registry)
    (idle : t'.inFlight = []) : w'.registry.status? id ≠ some .loading := by
  intro hs
  have hid := (h.owned ho).loading id hs
  simp [idle] at hid

/-- What is loading or loaded is loaded in the end, when all goes well from there. -/
theorem Run.success_of_blocked (h : Run answers ms t w t' w') (ho : Owned t.inFlight w.registry)
    (ok : t'.outcome? = some (.ok ())) (hb : w.registry.mayLoad id = false) :
    w'.registry.status? id = some .success := by
  have hleaves := (Task.isSome_outcome? t').1 (Option.isSome_of_eq_some ok)
  have hblocked := h.blocked_of_not_fails (fun m hm => h.not_fails ok m hm id) hb
  rw [Registry.mayLoad_eq_false_iff] at hblocked
  exact hblocked.resolve_left (h.ne_loading ho (by simp [Task.inFlight, hleaves]))

/-- After an expansion what its text refers to is loading or loaded. -/
theorem Step.blocked_of_targets {l : Loader} {request : LoadRequest}
    (h : Step answers e t w t' w') (he : (⟨e, t, w⟩ : Moment).expands? = some (l, request))
    (hid : id ∈ l.targets request) : w'.registry.mayLoad id = false := by
  have hw := h.workspace_eq
  rw [he] at hw
  obtain ⟨p, hp, rfl⟩ := List.mem_map.1 hid
  rw [hw, Registry.mayLoad_eq_false_iff, (expand_spec l request _).2.1,
    ← Registry.mayLoad_eq_false_iff]
  exact blocked_dispatch hp

/-- What a text that is expanded refers to is loaded in the end, when all goes well. -/
theorem Run.success_of_expands {l : Loader} {request : LoadRequest} {m : Moment}
    (h : Run answers ms t w t' w') (ho : Owned t.inFlight w.registry)
    (ok : t'.outcome? = some (.ok ())) (hm : m ∈ ms) (he : m.expands? = some (l, request))
    (hid : id ∈ l.targets request) : w'.registry.status? id = some .success := by
  obtain ⟨before, after, rfl⟩ := List.append_of_mem hm
  obtain ⟨t₁, w₁, hbefore, hstep, hafter⟩ := h.split
  exact hafter.success_of_blocked (hstep.owned (hbefore.owned ho)) ok
    (hstep.blocked_of_targets he hid)

end ModuleGraph
