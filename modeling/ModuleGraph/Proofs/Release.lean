/-
# What is there after a release

To destroy the plugin clears the registry and calls nothing off: a fetch that is under way
is answered all the same, and what it brings is marked, recorded and followed as if
nothing had happened. So a call that was waiting for a fetch leaves something in the
registry in the end, although it was begun before (`not_released`).

What was written before is gone for good, though, and nothing but the fetches under way and
the calls that have not begun writes afterwards: the registry is what these lead to by
themselves, and no identifier in it is left loading (`released`).

Key definitions: `Task.unbegun`, `Task.underWay`, `Moment.Marks`.
Key theorems: `Run.ne_loading_of_settled`, `Run.ne_none_of_inFlight`, `Task.leaves_perm`,
`released`, `not_released`.
-/
import ModuleGraph.Proofs.Reload

namespace ModuleGraph

variable {answers : Answers} {e : Event} {t t' : Task} {w w' : Workspace} {ms : List Moment}
  {id : String}

/-! ### What is left to be done -/

namespace Task

def load? : Task → Option (Loader × LoadRequest)
  | load l request => some (l, request)
  | _ => none

/-- The calls of a task that have not begun. -/
def unbegun (t : Task) : List (Loader × LoadRequest) := t.leaves.filterMap load?

/-- The branches of a task that have been dispatched and not been answered. -/
def underWay (t : Task) : List Task := t.leaves.filter fun leaf => leaf.branch?.isSome

mutual
theorem load_or_branch_of_mem {x : Task} : ∀ t : Task, x ∈ t.leaves →
    (∃ l request, x = load l request) ∨ x.branch?.isSome
  | joined tasks, h => load_or_branch_of_mem_among tasks h
  | load l request, h => .inl ⟨l, request, List.mem_singleton.1 h⟩
  | queued b, h => .inr (by rw [List.mem_singleton.1 h]; rfl)
  | fetching b answer due, h => .inr (by rw [List.mem_singleton.1 h]; rfl)
  | settled o, h => by simp at h

theorem load_or_branch_of_mem_among {x : Task} : ∀ tasks : List Task, x ∈ leavesOf tasks →
    (∃ l request, x = load l request) ∨ x.branch?.isSome
  | [], h => by simp [leavesOf] at h
  | t :: rest, h => by
    rcases List.mem_append.1 h with h | h
    · exact load_or_branch_of_mem t h
    · exact load_or_branch_of_mem_among rest h
end

theorem leaves_of_branch? {x : Task} (h : x.branch?.isSome) : x.leaves = [x] := by
  cases x with
  | queued b => rfl
  | fetching b answer due => rfl
  | _ => simp [branch?] at h

theorem leavesOf_of_branches : ∀ {xs : List Task}, (∀ x ∈ xs, x.branch?.isSome) → leavesOf xs = xs
  | [], _ => rfl
  | x :: xs, h => by
    rw [leavesOf, leaves_of_branch? (h x List.mem_cons_self),
      leavesOf_of_branches fun y hy => h y (List.mem_cons_of_mem _ hy)]
    rfl

/-- The leaves of a task are the calls that have not begun and the branches under way. -/
theorem leaves_perm (t : Task) :
    (joined [loads t.unbegun, joined t.underWay]).leaves.Perm t.leaves := by
  suffices ∀ xs : List Task, (∀ x ∈ xs, (∃ l request, x = load l request) ∨ x.branch?.isSome) →
      ((xs.filterMap load?).map (fun c => load c.1 c.2) ++
        xs.filter fun leaf => leaf.branch?.isSome).Perm xs by
    have hbranches : leavesOf t.underWay = t.underWay :=
      leavesOf_of_branches fun x hx => (List.mem_filter.1 hx).2
    have hleaves : (joined [loads t.unbegun, joined t.underWay]).leaves =
        t.unbegun.map (fun c => load c.1 c.2) ++ t.underWay := by
      simp [leaves, leavesOf, leaves_loads, hbranches]
    rw [hleaves]
    exact this t.leaves fun x => load_or_branch_of_mem t
  intro xs
  induction xs with
  | nil => exact fun _ => .nil
  | cons x xs ih =>
    intro h
    have hrest := ih fun y hy => h y (List.mem_cons_of_mem _ hy)
    rcases h x List.mem_cons_self with ⟨l, request, rfl⟩ | hb
    · simpa [load?, branch?] using hrest.cons (load l request)
    · have hload : x.load? = none := by cases x <;> simp_all [load?, branch?]
      simpa [hload, hb] using List.perm_middle.trans (hrest.cons x)

theorem underWay_eq_nil (h : t.inFlight = []) : t.underWay = [] := by
  rw [inFlight, identifiers, List.map_eq_nil_iff, List.filterMap_eq_nil_iff] at h
  refine List.filter_eq_nil_iff.2 fun x hx => ?_
  simp [h x hx]

end Task

/-! ### Statuses that go on to be written -/

/-- At a moment a status is written: a load begins, or an answer is taken note of. -/
def Moment.Marks (m : Moment) (id : String) : Prop :=
  id ∈ m.dispatched ∨ (m.event.mark? id).isSome

theorem Run.exists_marks (h : Run answers ms t w t' w') (absent : w.registry.status? id = none)
    (hs : w'.registry.status? id ≠ none) : ∃ m ∈ ms, m.Marks id := by
  by_contra hnone
  refine hs ((h.status?_eq_of_unmarked fun m hm => ?_).trans absent)
  have hm := not_exists.1 hnone m
  simp only [Moment.Marks, not_and, not_or] at hm
  obtain ⟨hd, hmark⟩ := hm ‹_›
  exact ⟨Option.not_isSome_iff_eq_none.1 hmark, hd⟩

/-- What is answered is under way. -/
theorem Step.count_answered_le (h : Step answers e t w t' w') (id : String) :
    e.answered.count id ≤ t.inFlight.count id := by
  cases e with
  | load l request => exact Nat.zero_le _
  | start b a => exact Nat.zero_le _
  | receive b a =>
    have hb : b.identifier ∈ t.inFlight := h.mem_inFlight_of_branch? rfl
    by_cases hid : b.identifier = id
    · simpa [Event.answered, hid] using hid ▸ hb
    · simp [Event.answered, hid]

/-- What a branch was dispatched for has a status once it is answered. -/
theorem Event.mark?_receive_ne_none (b : Branch) (a : FetchAnswer) :
    (receive b a).mark? b.identifier ≠ none := by
  cases a <;> simp [mark?]

/-- What is loading is under way, also where an identifier is fetched twice at a time. -/
theorem Step.mem_inFlight_of_loading (h : Step answers e t w t' w')
    (hl : w.registry.status? id = some .loading → id ∈ t.inFlight)
    (hs : w'.registry.status? id = some .loading) : id ∈ t'.inFlight := by
  -- what is under way is free once the registry is cleared, and may be dispatched again, so
  -- that it has no single owner here: all that is under way is counted
  rw [h.status?_eq] at hs
  split at hs
  · next hd =>
    obtain ⟨hflight, -⟩ := h.count_eq id
    have hbegun := List.count_pos_iff.2 hd
    have hanswered := h.count_answered_le id
    exact List.count_pos_iff.1 (by omega)
  · cases hm : e.mark? id with
    | some status =>
      rw [hm, Option.some_or] at hs
      exact absurd (hm.trans hs) (e.mark?_ne_loading id)
    | none =>
      rw [hm, Option.none_or] at hs
      refine (h.mem_inFlight (hl hs)).resolve_right ?_
      rintro ⟨b, a, rfl, rfl⟩
      exact Event.mark?_receive_ne_none b a hm

/-- Nothing is left loading where nothing was, whatever is under way. -/
theorem Run.ne_loading_of_settled (h : Run answers ms t w t' w')
    (idle : w.registry.status? id ≠ some .loading) (settled : t'.leaves = []) :
    w'.registry.status? id ≠ some .loading := by
  intro hs
  have hid : id ∈ t'.inFlight :=
    h.invariant (P := fun t w => w.registry.status? id = some .loading → id ∈ t.inFlight)
      (fun hs hl => hs.mem_inFlight_of_loading hl) (fun hs => absurd hs idle) hs
  simp [Task.inFlight, settled] at hid

/-- What is under way has a status in the end. -/
theorem Run.ne_none_of_inFlight (h : Run answers ms t w t' w') (hid : id ∈ t.inFlight)
    (settled : t'.leaves = []) : w'.registry.status? id ≠ none := by
  have hcases : id ∈ t'.inFlight ∨ w'.registry.status? id ≠ none := by
    refine h.invariant (P := fun t w => id ∈ t.inFlight ∨ w.registry.status? id ≠ none)
      (fun hs => ?_) (.inl hid)
    rintro (hid | hstatus)
    · rcases hs.mem_inFlight hid with hid | ⟨b, a, rfl, rfl⟩
      · exact .inl hid
      · right
        rw [hs.status?_eq]
        split
        · simp
        · simp [Event.mark?_receive_ne_none]
    · exact .inr (hs.status?_ne_none hstatus)
  simpa [Task.inFlight, settled] using hcases

/-! ### Releases -/

/-- **What is there after a release.** Whatever is under way when the plugin is destroyed,
once all has settled every status and every file in the registry was written afterwards,
and no identifier is loading. Nothing is called off: what was under way has a status in the
end. Nothing else writes but the calls that had not begun: the registry is what they and
the branches under way lead to by themselves, and where nothing was under way what those
calls lead to. -/
theorem released {s : Session} (h : Run answers ms t (Plugin.destroy s).workspace t' w')
    (settled : t'.outcome?.isSome) :
    (∀ id, w'.registry.status? id ≠ none → ∃ m ∈ ms, m.Marks id) ∧
    (∀ id info, w'.registry.fileInfo? id = some info →
      ∃ m ∈ ms, m.recorded? = some (id, info)) ∧
    (∀ id, w'.registry.status? id ≠ some .loading) ∧
    (∀ id ∈ t.inFlight, w'.registry.status? id ≠ none) ∧
    (∃ ms₂ t₂, Run answers ms₂ (.joined [.loads t.unbegun, .joined t.underWay])
      (Plugin.destroy s).workspace t₂ w' ∧ t₂.outcome?.isSome) ∧
    (t.inFlight = [] → ∃ ms₂ t₂, Run answers ms₂ (.loads t.unbegun)
      (Plugin.destroy s).workspace t₂ w' ∧ t₂.outcome?.isSome) := by
  have hleaves : t'.leaves = [] := (Task.isSome_outcome? t').1 settled
  have absent : ∀ id, (Plugin.destroy s).workspace.registry.status? id = none := fun _ => rfl
  have hsame : ∀ {x : Task}, x.leaves.Perm t.leaves → ∃ ms₂ t₂,
      Run answers ms₂ x (Plugin.destroy s).workspace t₂ w' ∧ t₂.outcome?.isSome := by
    intro x hx
    obtain ⟨ms₂, t₂, h₂, hperm⟩ := h.of_leaves hx
    rw [hleaves] at hperm
    exact ⟨ms₂, t₂, h₂, (Task.isSome_outcome? t₂).2 hperm.eq_nil⟩
  refine ⟨fun id => h.exists_marks (absent id), fun id info hf => ?_, fun id => ?_,
    fun id hid => h.ne_none_of_inFlight hid hleaves, hsame t.leaves_perm, fun hnone => hsame ?_⟩
  · refine (h.fileInfo?_cases hf).resolve_right fun hold => ?_
    simp [Plugin.destroy, Session.withRegistry, Registry.clear, Registry.fileInfo?] at hold
  · exact h.ne_loading_of_settled (by simp [absent]) hleaves
  · have hperm := t.leaves_perm
    rw [Task.underWay_eq_nil hnone] at hperm
    simpa [Task.leaves, Task.leavesOf] using hperm

/-! ### A release between two calls -/

/-- A file that refers to nothing. -/
def besideRequest : LoadRequest := ⟨"1", "/b", .typescript, false⟩

/-- The load of a file and its import. -/
def loadedBeside : Task × Workspace :=
  (settle (ModuleSource.catalog mendedBeside).fetcher 9 0
    (.load { fetches := true } (topRequest importBeside .typescript)) {}).2

/-- The load of the other file, when the plugin has been destroyed. -/
def loadedAfter : Task × Workspace :=
  expand { fetches := true } besideRequest
    (Plugin.destroy { workspace := loadedBeside.2 }).workspace

theorem loadedAfter_spec : loadedBeside.1.outcome? = some (.ok ()) ∧
    loadedBeside.2.registry.status? "/x" = some .success ∧
    Loader.targets { fetches := true } besideRequest = [] ∧
    loadedAfter.1.outcome? = some (.ok ()) ∧ (loadedAfter.2.registry.fileInfo? "/b").isSome := by
  decide +kernel

/-- The second call begins when the first is done with and released: nothing of that one is
left. -/
theorem released_loadedBeside : ∃ before s t ms t' w',
    Run (ModuleSource.catalog mendedBeside).fetcher.answers before
      (.loads [({ fetches := true }, topRequest importBeside .typescript),
        ({ fetches := true }, besideRequest)]) {} t s.workspace ∧
    s.workspace.registry.status? "/x" = some .success ∧
    Run (ModuleSource.catalog mendedBeside).fetcher.answers ms t (Plugin.destroy s).workspace
      t' w' ∧ t'.outcome? = some (.ok ()) ∧
    w'.registry.status? "/x" = none ∧ w'.registry.fileInfo? "/a" = none ∧
    (w'.registry.fileInfo? "/b").isSome := by
  obtain ⟨ok, hloaded, htargets, ok', hfile⟩ := loadedAfter_spec
  obtain ⟨ms, hfirst⟩ : Leads (ModuleSource.catalog mendedBeside).fetcher.answers
    (.load { fetches := true } (topRequest importBeside .typescript)) {} loadedBeside.1
      loadedBeside.2 := leads_settle _ _ _ _ _
  have hsecond : Run (ModuleSource.catalog mendedBeside).fetcher.answers _ _
      (Plugin.destroy { workspace := loadedBeside.2 }).workspace _ loadedAfter.2 :=
    .head (.joined [loadedBeside.1] [] (.move (.load { fetches := true } besideRequest _)))
      (.refl _ _)
  have houtcome : (Task.joined [loadedBeside.1, loadedAfter.1]).outcome? = some (.ok ()) :=
    Task.outcome?_joined_ok (by simp [ok, ok'])
  obtain ⟨hmarked, hrecorded, -⟩ := released hsecond (Option.isSome_of_eq_some houtcome)
  refine ⟨_, { workspace := loadedBeside.2 }, _, _, _, _, hfirst.joined [] [_], hloaded, hsecond,
    houtcome, ?_, ?_, hfile⟩
  · by_contra hs
    obtain ⟨m, hm, hd | hmark⟩ := hmarked "/x" hs
    · obtain rfl := List.mem_singleton.1 hm
      obtain ⟨l, request, he, hid, -⟩ := Moment.mem_dispatched_iff.1 hd
      cases he
      rw [htargets] at hid
      cases hid
    · obtain rfl := List.mem_singleton.1 hm
      cases hmark
  · by_contra hf
    obtain ⟨info, hinfo⟩ := Option.ne_none_iff_exists'.1 hf
    obtain ⟨m, hm, hr⟩ := hrecorded "/a" info hinfo
    obtain rfl := List.mem_singleton.1 hm
    obtain ⟨l, request, he, -, hid⟩ := Moment.recorded?_eq_some.1 hr
    cases he
    exact absurd hid (by decide)

/-! ### A release while a fetch is under way -/

/-- What the file refers to is served, but not at once. -/
def slowBeside : Table String CatalogModule := [("/x", { text := "1", delay := 10 })]

/-- The load of the file, while its import is fetched. -/
def fetchingBeside : Task × Workspace :=
  poll (ModuleSource.catalog slowBeside).fetcher 0 9 (loadAlone importBeside .typescript) {}

/-- What the load comes to when the plugin is destroyed meanwhile. -/
def answeredAfter : Task × Workspace :=
  (settle (ModuleSource.catalog slowBeside).fetcher 9 0 fetchingBeside.1
    (Plugin.destroy { workspace := fetchingBeside.2 }).workspace).2

theorem answeredAfter_spec : fetchingBeside.1.unbegun = [] ∧
    answeredAfter.1.outcome? = some (.ok ()) ∧
    answeredAfter.2.registry.status? "/x" = some .success ∧
    answeredAfter.2.registry.identifiers = ["/x"] := by
  decide +kernel

/-- Of the only call, which has begun before, a file and a status are left. -/
theorem not_released : ∃ before s t ms t' w',
    Run (ModuleSource.catalog slowBeside).fetcher.answers before
      (loadAlone importBeside .typescript) {} t s.workspace ∧ t.unbegun = [] ∧
    Run (ModuleSource.catalog slowBeside).fetcher.answers ms t (Plugin.destroy s).workspace
      t' w' ∧ t'.outcome? = some (.ok ()) ∧
    w'.registry.status? "/x" = some .success ∧ w'.registry.identifiers = ["/x"] := by
  obtain ⟨hbegun, ok, hstatus, hfiles⟩ := answeredAfter_spec
  obtain ⟨before, hbefore⟩ :
      Leads (ModuleSource.catalog slowBeside).fetcher.answers
        (loadAlone importBeside .typescript) {} fetchingBeside.1 fetchingBeside.2 :=
    leads_poll _ _ _ _ _
  obtain ⟨ms, h⟩ : Leads (ModuleSource.catalog slowBeside).fetcher.answers fetchingBeside.1
      (Plugin.destroy { workspace := fetchingBeside.2 }).workspace answeredAfter.1
        answeredAfter.2 := leads_settle _ _ _ _ _
  exact ⟨before, { workspace := fetchingBeside.2 }, _, ms, _, _, hbefore, hbegun, h, ok, hstatus,
    hfiles⟩

end ModuleGraph
