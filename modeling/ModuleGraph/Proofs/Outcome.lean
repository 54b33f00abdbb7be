/-
# What a load reports

The outcome of a task is the verdict of a search through its positions that goes down
before it goes on: all went well if no position stands failed, and otherwise the first
that does is reported. Positions are given at dispatch and never change, so it does not
matter when a fetch fails: where its branch was dispatched, its failure stands in the
end. A text dispatches its branches next to each other below its own position, in the
order in which it refers to them.

Key definitions: `Precedes`, `Task.Verdict`, `Failed`, `Spread`, `Reported`.
Key theorems: `Task.verdict_of_outcome?`, `Run.at?_of_failed`, `Run.failed_of_at?`,
`Run.exists_spread`, `reported`.
-/
import ModuleGraph.Proofs.Admission
import ModuleGraph.Proofs.Position

namespace ModuleGraph

/-! ### The order of positions -/

/-- A search that goes down before it goes on does not meet the second position before
the first. -/
def Precedes (p q : List Nat) : Prop := p = q ∨ List.Lex (· < ·) p q

theorem precedes_nil : ∀ q : List Nat, Precedes [] q
  | [] => .inl rfl
  | _ :: _ => .inr .nil

theorem Precedes.cons {p q : List Nat} (i : Nat) (h : Precedes p q) :
    Precedes (i :: p) (i :: q) :=
  h.imp (congrArg _) .cons

theorem precedes_of_lt {i j : Nat} (p q : List Nat) (h : i < j) : Precedes (i :: p) (j :: q) :=
  .inr (.rel h)

theorem Precedes.shift {i j : Nat} {p q : List Nat} (h : Precedes (i :: p) (j :: q)) :
    Precedes ((i + 1) :: p) ((j + 1) :: q) := by
  rcases h with h | h
  · cases h
    exact .inl rfl
  · cases h with
    | rel hlt => exact precedes_of_lt p q (Nat.succ_lt_succ hlt)
    | cons hlex => exact .inr (.cons hlex)

/-! ### The outcome of a task -/

namespace Task

/-- How an outcome is read off what stands at the positions of a task. -/
def Verdict (t : Task) : Outcome → Prop
  | .ok () => ∀ p e, t.at? p ≠ some (.settled (.error e))
  | .error e => ∃ p, t.at? p = some (.settled (.error e)) ∧
      ∀ q e', t.at? q = some (.settled (.error e')) → Precedes p q

theorem verdict_settled : ∀ o : Outcome, (settled o).Verdict o
  | .ok () => by
    intro p e h
    cases p <;> simp at h
  | .error e => ⟨[], at?_nil _, fun q _ _ => precedes_nil q⟩

theorem verdict_joined_nil : (joined []).Verdict (.ok ()) := by
  intro p e h
  cases p <;> simp at h

variable {t : Task} {rest : List Task} {e : LoadError} {o : Outcome}

/-- What failed in the first of several tasks comes before all that failed in the others. -/
theorem Verdict.joined_of_error (h : t.Verdict (.error e)) :
    (joined (t :: rest)).Verdict (.error e) := by
  obtain ⟨p, hp, hfirst⟩ := h
  refine ⟨0 :: p, by simpa using hp, fun q e' hq => ?_⟩
  match q with
  | [] => simp at hq
  | 0 :: q => exact (hfirst q e' (by simpa using hq)).cons 0
  | (i + 1) :: q => exact precedes_of_lt p q (Nat.succ_pos i)

/-- If all went well in the first of several tasks, the others decide. -/
theorem Verdict.joined_of_ok (h : t.Verdict (.ok ())) (hrest : (joined rest).Verdict o) :
    (joined (t :: rest)).Verdict o := by
  have hshift : ∀ {q e'}, (joined (t :: rest)).at? q = some (.settled (.error e')) →
      ∃ i p, q = (i + 1) :: p ∧ (joined rest).at? (i :: p) = some (.settled (.error e')) := by
    intro q e' hq
    match q with
    | [] => simp at hq
    | 0 :: q => exact absurd (by simpa using hq) (h q e')
    | (i + 1) :: q => exact ⟨i, q, rfl, by simpa using hq⟩
  match o with
  | .ok () =>
    intro q e' hq
    obtain ⟨i, p, -, hp⟩ := hshift hq
    exact hrest (i :: p) e' hp
  | .error e =>
    obtain ⟨p, hp, hfirst⟩ := hrest
    match p with
    | [] => simp at hp
    | i :: p =>
      refine ⟨(i + 1) :: p, by simpa using hp, fun q e' hq => ?_⟩
      obtain ⟨j, q, rfl, hq⟩ := hshift hq
      exact (hfirst (j :: q) e' hq).shift

mutual
/-- The outcome of a task is the verdict of its positions. -/
theorem verdict_of_outcome? : ∀ {t : Task} {o : Outcome}, t.outcome? = some o → t.Verdict o
  | settled o, o', h => by
    obtain rfl : o = o' := by simpa [outcome?] using h
    exact verdict_settled o
  | joined tasks, o, h => verdict_of_combine (by simpa [outcome?] using h)
  | load .., _, h => by simp [outcome?] at h
  | queued _, _, h => by simp [outcome?] at h
  | fetching .., _, h => by simp [outcome?] at h

theorem verdict_of_combine : ∀ {tasks : List Task} {o : Outcome},
    combine (outcomes tasks) = some o → (joined tasks).Verdict o
  | [], o, h => by
    obtain rfl : .ok () = o := by simpa [outcomes, combine] using h
    exact verdict_joined_nil
  | t :: rest, o, h => by
    cases ht : t.outcome? with
    | none => simp [outcomes, combine, ht] at h
    | some first =>
      cases hrest : combine (outcomes rest) with
      | none => simp [outcomes, combine, ht, hrest] at h
      | some others =>
        match first with
        | .ok () =>
          obtain rfl : others = o := by simpa [outcomes, combine, ht, hrest] using h
          exact (verdict_of_outcome? ht).joined_of_ok (verdict_of_combine hrest)
        | .error e =>
          obtain rfl : .error e = o := by simpa [outcomes, combine, ht, hrest] using h
          exact (verdict_of_outcome? ht).joined_of_error
end

theorem at?_append : ∀ (p q : List Nat) (t : Task),
    t.at? (p ++ q) = (t.at? p).bind fun x => x.at? q
  | [], q, t => by simp
  | i :: p, q, joined tasks => by
    cases h : tasks[i]? with
    | none => simp [h]
    | some x => simpa [h] using at?_append p q x
  | _ :: _, _, load .. => rfl
  | _ :: _, _, queued _ => rfl
  | _ :: _, _, fetching .. => rfl
  | _ :: _, _, settled _ => rfl

end Task

variable {answers : Answers} {e : Event} {t t' x x' : Task} {w w' : Workspace}
  {ms : List Moment} {p q : List Nat} {b b' : Branch} {a : FetchAnswer} {due : Nat}
  {cause : FetchError} {err : LoadError} {s s' : Task × Workspace}

/-! ### Steps of a branch -/

theorem Step.queued_inv (h : Step answers e (.queued b) w x' w') :
    ∃ a due, x' = .fetching b a due := by
  cases h with
  | move hm =>
    cases hm with
    | start _ delivery now _ _ => exact ⟨delivery.answer, now + delivery.delay, rfl⟩

theorem Step.fetching_inv (h : Step answers e (.fetching b a due) w x' w') :
    x' = (b.receive a w).1 := by
  cases h with
  | move hm =>
    cases hm
    rfl

theorem not_step_settled {o : Outcome} : ¬ Step answers e (.settled o) w x' w' := by
  intro h
  cases h with
  | move hm => cases hm

/-- What is expanded goes on in branches or is done. -/
theorem expand_ne_queued (l : Loader) (request : LoadRequest) (w : Workspace) :
    (expand l request w).1 ≠ .queued b := by
  intro h
  rcases expand_fst l request w with he | he <;> simp [he] at h

/-- A branch is queued only where it is new. -/
theorem Step.ne_queued (h : Step answers e x w x' w') : x' ≠ .queued b := by
  cases h with
  | joined before after _ => simp
  | move hm =>
    cases hm with
    | load l request => exact expand_ne_queued l request w
    | start _ delivery now _ _ => simp [Branch.start]
    | receive b' answer due =>
      cases answer with
      | error cause => simp [Branch.receive]
      | ok fetched =>
        exact receive_cases (P := fun r => r.1 ≠ .queued b)
          (fun l request => expand_ne_queued l request _) (by simp)

/-- What is reported of a fetch that failed. -/
def Branch.failure (b : Branch) (cause : FetchError) : LoadError :=
  ⟨b.specifier, b.identifier, cause⟩

/-- What stands failed was a fetch that failed. -/
theorem Step.failed_inv (h : Step answers e x w (.settled (.error err)) w') :
    ∃ b cause due, x = .fetching b (.error cause) due ∧ err = b.failure cause := by
  have hexpand : ∀ (l : Loader) (request : LoadRequest) (w : Workspace),
      (expand l request w).1 ≠ .settled (.error err) := by
    intro l request w he
    rcases expand_fst l request w with hx | hx <;> simp [hx] at he
  generalize hx' : Task.settled (.error err) = x' at h
  cases h with
  | joined before after _ => cases hx'
  | move hm =>
    cases hm with
    | load l request => exact absurd hx'.symm (hexpand l request w)
    | start b delivery now _ _ => cases hx'
    | receive b answer due =>
      cases answer with
      | error cause =>
        refine ⟨b, cause, due, rfl, ?_⟩
        simpa [Branch.receive, Branch.failure] using hx'
      | ok fetched =>
        refine absurd hx'.symm ?_
        exact receive_cases (P := fun r => r.1 ≠ .settled (.error err))
          (fun l request => hexpand l request _) (by simp)

/-! ### What stood at a position -/

theorem states_append (before after : List Moment) (t : Task) (w : Workspace) :
    states (before ++ after) t w =
      before.map (fun m => (m.task, m.workspace)) ++ states after t w := by
  simp [states]

theorem states_concat (past : List Moment) (m : Moment) (t : Task) (w : Workspace) :
    states (past ++ [m]) t w = states past m.task m.workspace ++ [(t, w)] := by
  simp [states]

theorem Stood.mono {run run' : List (Task × Workspace)} (h : Stood run p x)
    (sub : run ⊆ run') : Stood run' p x := by
  obtain ⟨s, hs, hx⟩ := h
  exact ⟨s, sub hs, hx⟩

theorem Stood.concat {past : List Moment} (h : Stood (states past t w) p x) (e : Event) :
    Stood (states (past ++ [⟨e, t, w⟩]) t' w') p x := by
  rw [states_concat]
  exact h.mono (List.subset_append_left _ _)

theorem stood_last (h : t.at? p = some x) : Stood (states ms t w) p x :=
  ⟨(t, w), by simp [states], h⟩

theorem stood_concat {past : List Moment} (h : t.at? p = some x) (e : Event) :
    Stood (states (past ++ [⟨e, t, w⟩]) t' w') p x :=
  (stood_last h).concat e

/-- Of two states of a run, one leads to the other. -/
theorem Run.comparable (h : Run answers ms t w t' w') : ∀ s ∈ states ms t' w',
    ∀ s' ∈ states ms t' w',
      Leads answers s.1 s.2 s'.1 s'.2 ∨ Leads answers s'.1 s'.2 s.1 s.2 := by
  induction h with
  | refl t w =>
    intro s hs s' hs'
    obtain rfl := List.mem_singleton.1 hs
    obtain rfl := List.mem_singleton.1 hs'
    exact .inl (.refl _ _)
  | head hs hrest ih =>
    have hfirst : ∀ s ∈ states (_ :: _) _ _, Leads answers _ _ s.1 s.2 := fun s hm => by
      obtain ⟨before, -, -, hbefore, -⟩ := (Run.head hs hrest).through s hm
      exact ⟨before, hbefore⟩
    intro s hm s' hm'
    rcases List.mem_cons.1 hm with rfl | hr
    · exact .inl (hfirst s' hm')
    · rcases List.mem_cons.1 hm' with rfl | hr'
      · exact .inr (hfirst s hm)
      · exact ih s hr s' hr'

/-- A position is given to one branch only. -/
theorem Leads.queued_unique (h : Leads answers t w t' w') (hb : t.at? p = some (.queued b))
    (hb' : t'.at? p = some (.queued b')) : b = b' := by
  obtain ⟨ms, h⟩ := h
  obtain ⟨x, hx, hne⟩ := h.invariant
    (P := fun t _ => ∃ x, t.at? p = some x ∧ ∀ b', x = .queued b' → b = b') (by
      rintro e t w t' w' hs ⟨x, hx, hne⟩
      rcases hs.at? hx with hx | ⟨x', hx', hstep⟩
      · exact ⟨x, hx, hne⟩
      · exact ⟨x', hx', fun b' he => absurd he hstep.ne_queued⟩)
    ⟨_, hb, fun b' he => Task.queued.inj he⟩
  exact hne b' (Option.some.inj (hx.symm.trans hb'))

theorem Run.queued_unique (h : Run answers ms t w t' w')
    (hb : Stood (states ms t' w') p (.queued b)) (hb' : Stood (states ms t' w') p (.queued b')) :
    b = b' := by
  obtain ⟨s, hs, hb⟩ := hb
  obtain ⟨s', hs', hb'⟩ := hb'
  rcases h.comparable s hs s' hs' with hl | hl
  · exact hl.queued_unique hb hb'
  · exact (hl.queued_unique hb' hb).symm

/-- A branch that is queued goes on to be, or is fetched. -/
theorem Run.queued_cases (h : Run answers ms t w t' w') : t.at? p = some (.queued b) →
    t'.at? p = some (.queued b) ∨
      ∃ a due, Stood (states ms t' w') p (.fetching b a due) := by
  induction h with
  | refl => exact .inl
  | @head e ms t t₁ t' w w₁ w' hs hrest ih =>
    intro hb
    have hrun : states ms t' w' ⊆ states (⟨e, t, w⟩ :: ms) t' w' :=
      fun _ hm => List.mem_cons_of_mem _ hm
    rcases hs.at? hb with hb | ⟨x, hx, hstep⟩
    · refine (ih hb).imp_right ?_
      rintro ⟨a, due, hf⟩
      exact ⟨a, due, hf.mono hrun⟩
    · obtain ⟨a, due, rfl⟩ := hstep.queued_inv
      obtain ⟨rest, heq⟩ := hrest.states_eq_cons
      have hfirst : (t₁, w₁) ∈ states ms t' w' := by
        rw [heq]
        exact List.mem_cons_self
      exact .inr ⟨a, due, (t₁, w₁), hrun hfirst, hx⟩

/-- A branch that was dispatched where nothing is left to be done has been fetched. -/
theorem Run.exists_fetching (h : Run answers ms t w t' w')
    (hb : Stood (states ms t' w') p (.queued b)) (done : ∀ x, t'.at? p = some x → x.leaves = []) :
    ∃ a due, Stood (states ms t' w') p (.fetching b a due) := by
  obtain ⟨s, hs, hb⟩ := hb
  obtain ⟨before, after, rfl, -, hafter⟩ := h.through s hs
  rcases hafter.queued_cases hb with hq | ⟨a, due, hf⟩
  · simpa [Task.leaves] using done _ hq
  · refine ⟨a, due, hf.mono ?_⟩
    rw [states_append]
    exact List.subset_append_right _ _

/-! ### Failures -/

/-- A fetch for a branch at a position failed. -/
def Failed (run : List (Task × Workspace)) (p : List Nat) (b : Branch) (cause : FetchError) :
    Prop :=
  ∃ due, Stood run p (.fetching b (.error cause) due)

/-- Where a fetch failed, its failure stands in the end. -/
theorem Run.at?_of_failed (h : Run answers ms t w t' w')
    (hf : Failed (states ms t' w') p b cause) (done : ∀ x, t'.at? p = some x → x.leaves = []) :
    t'.at? p = some (.settled (.error (b.failure cause))) := by
  obtain ⟨due, s, hs, hf⟩ := hf
  obtain ⟨_, _, -, -, hafter⟩ := h.through s hs
  have hend := hafter.invariant
    (P := fun t _ => t.at? p = some (.fetching b (.error cause) due) ∨
      t.at? p = some (.settled (.error (b.failure cause)))) (by
      rintro e t w t' w' hstep (hx | hx)
      · rcases hstep.at? hx with hx | ⟨x', hx', hstep⟩
        · exact .inl hx
        · rw [hstep.fetching_inv] at hx'
          exact .inr hx'
      · rcases hstep.at? hx with hx | ⟨x', -, hstep⟩
        · exact .inr hx
        · exact absurd hstep not_step_settled)
    (.inl hf)
  rcases hend with hx | hx
  · simpa [Task.leaves] using done _ hx
  · exact hx

variable {calls : List (Loader × LoadRequest)} {tasks : List Task}

theorem at?_loads_cons {i : Nat} (h : (Task.loads calls).at? (i :: p) = some x) :
    ∃ l request, x = .load l request := by
  obtain ⟨y, hy, hx⟩ := Option.bind_eq_some_iff.1 h
  rw [List.getElem?_map] at hy
  obtain ⟨c, -, rfl⟩ := Option.map_eq_some_iff.1 hy
  cases p with
  | nil => exact ⟨c.1, c.2, by simpa [eq_comm] using hx⟩
  | cons j p => simp [Task.at?] at hx

/-- Where a failure stands, a fetch failed. -/
theorem Run.failed_of_at? (h : Run answers ms (.loads calls) w t' w')
    (hx : t'.at? p = some (.settled (.error err))) :
    ∃ b cause, Failed (states ms t' w') p b cause ∧ err = b.failure cause := by
  refine h.preserves (P := fun past t w => t.at? p = some (.settled (.error err)) →
    ∃ b cause, Failed (states past t w) p b cause ∧ err = b.failure cause) ?_ ?_ hx
  · intro past e t w t' w' hs ih hx
    rcases hs.at?_inv hx with hx | ⟨x, hx, hstep⟩ | ⟨b, hq⟩
    · obtain ⟨b, cause, ⟨due, hf⟩, he⟩ := ih hx
      exact ⟨b, cause, ⟨due, hf.concat e⟩, he⟩
    · obtain ⟨b, cause, due, rfl, he⟩ := hstep.failed_inv
      exact ⟨b, cause, ⟨due, stood_concat hx e⟩, he⟩
    · cases hq
  · intro hx
    cases p with
    | nil => simp [Task.loads] at hx
    | cons i p =>
      obtain ⟨l, request, hl⟩ := at?_loads_cons hx
      cases hl

/-! ### The order of dispatch -/

/-- The text that a task goes on with: one that is asked for, or one that is fetched. -/
def Task.text? : Task → Option (Loader × LoadRequest)
  | load l request => some (l, request)
  | fetching b (.ok fetched) _ => some (b.loader, b.continuation fetched)
  | _ => none

/-- Branches stand for references of a text, in the order of the text. -/
def Ordered (branches : List Branch) (l : Loader) (request : LoadRequest) : Prop :=
  (branches.map fun b => (b.specifier, b.candidate)).Sublist
    ((l.dependencies request).map fun d => (d.1.value, d.2))

theorem expand_eq_joined {l : Loader} {request : LoadRequest} {tasks : List Task}
    (h : (expand l request w).1 = .joined tasks) :
    ∃ branches, tasks = branches.map .queued ∧ Ordered branches l request := by
  rcases expand_fst l request w with he | he
  · simp [he] at h
  · rw [he] at h
    exact ⟨_, (Task.joined.inj h).symm, dispatch_sublist ..⟩

/-- Several tasks stand where several stood, or come of a text. -/
theorem Step.joined_inv (h : Step answers e x w (.joined tasks) w') :
    (∃ tasks₀, x = .joined tasks₀ ∧ tasks₀.length = tasks.length) ∨
    ∃ l request branches, x.text? = some (l, request) ∧ tasks = branches.map .queued ∧
      Ordered branches l request := by
  generalize hx' : Task.joined tasks = x' at h
  cases h with
  | joined before after _ =>
    cases hx'
    exact .inl ⟨_, rfl, by simp⟩
  | move hm =>
    right
    cases hm with
    | load l request =>
      obtain ⟨branches, htasks, ho⟩ := expand_eq_joined hx'.symm
      exact ⟨l, request, branches, rfl, htasks, ho⟩
    | start b delivery now _ _ => cases hx'
    | receive b answer due =>
      cases answer with
      | error cause => cases hx'
      | ok fetched =>
        by_cases ha : b.Admits fetched w.registry
        · rw [receive_of_admits ha] at hx'
          obtain ⟨branches, htasks, ho⟩ := expand_eq_joined hx'.symm
          exact ⟨b.loader, b.continuation fetched, branches, rfl, htasks, ho⟩
        · rw [receive_of_not_admits ha] at hx'
          cases hx'

/-- What was dispatched below a position: branches for references of a text that stood
there, each at its place among them. -/
structure Spread (run : List (Task × Workspace)) (p : List Nat) (branches : List Branch) :
    Prop where
  text : ∃ x l request, Stood run p x ∧ x.text? = some (l, request) ∧ Ordered branches l request
  stood : ∀ i b, branches[i]? = some b → Stood run (p ++ [i]) (.queued b)

theorem Spread.concat {past : List Moment} {branches : List Branch}
    (h : Spread (states past t w) p branches) (e : Event) :
    Spread (states (past ++ [⟨e, t, w⟩]) t' w') p branches := by
  obtain ⟨x, l, request, hx, ht, ho⟩ := h.text
  exact ⟨⟨x, l, request, hx.concat e, ht, ho⟩, fun i b hb => (h.stood i b hb).concat e⟩

/-- Below the calls, several tasks are what was dispatched for a text. -/
theorem Run.exists_spread (h : Run answers ms (.loads calls) w t' w') (hp : p ≠ [])
    (hx : t'.at? p = some (.joined tasks)) :
    ∃ branches, branches.length = tasks.length ∧ Spread (states ms t' w') p branches := by
  refine h.preserves (P := fun past t w => ∀ tasks, t.at? p = some (.joined tasks) →
    ∃ branches, branches.length = tasks.length ∧ Spread (states past t w) p branches) ?_ ?_ _ hx
  · intro past e t w t' w' hs ih tasks hx
    rcases hs.at?_inv hx with hx | ⟨x, hx₀, hstep⟩ | ⟨b, hq⟩
    · obtain ⟨branches, hlen, hspread⟩ := ih _ hx
      exact ⟨branches, hlen, hspread.concat e⟩
    · rcases hstep.joined_inv with ⟨tasks₀, rfl, hlen₀⟩ | ⟨l, request, branches, ht, rfl, ho⟩
      · obtain ⟨branches, hlen, hspread⟩ := ih _ hx₀
        exact ⟨branches, hlen.trans hlen₀, hspread.concat e⟩
      · refine ⟨branches, by simp, ⟨x, l, request, stood_concat hx₀ e, ht, ho⟩, fun i b hb => ?_⟩
        exact stood_last (by simp [Task.at?_append, hx, hb])
    · cases hq
  · intro tasks hx
    cases p with
    | nil => exact absurd rfl hp
    | cons i p =>
      obtain ⟨l, request, hl⟩ := at?_loads_cons hx
      cases hl

/-- The branches below several tasks are those that were dispatched. -/
theorem Run.stood_iff {branches : List Branch} (h : Run answers ms t w t' w')
    (hx : t'.at? p = some (.joined tasks)) (hlen : branches.length = tasks.length)
    (hspread : Spread (states ms t' w') p branches) (i : Nat) (b : Branch) :
    branches[i]? = some b ↔ Stood (states ms t' w') (p ++ [i]) (.queued b) := by
  refine ⟨hspread.stood i b, fun hb => ?_⟩
  obtain ⟨y, hy⟩ := h.at? hb
  have hi : i < branches.length := by
    rw [hlen]
    by_contra hge
    simp [Task.at?_append, hx, List.getElem?_eq_none (Nat.le_of_not_lt hge)] at hy
  have hsame := h.queued_unique hb (hspread.stood i branches[i] (by simp [hi]))
  simp [hi, hsame]

/-! ### Reports -/

/-- How a call that has an outcome ended. Below its position all that was dispatched
has been fetched and is done; the outcome is the first failure, in the order of
positions, which next to each other are those of the references in a text. -/
structure Reported (run : List (Task × Workspace)) (final : Task) (call : Nat) (o : Outcome) :
    Prop where
  settled : ∀ p b, Stood run (call :: p) (.queued b) →
    (∃ a due, Stood run (call :: p) (.fetching b a due)) ∧
      ∃ x, final.at? (call :: p) = some x ∧ x.outcome?.isSome
  ok_iff : o = .ok () ↔ ∀ p b cause, ¬ Failed run (call :: p) b cause
  error : ∀ err, o = .error err → ∃ p b cause, Failed run (call :: p) b cause ∧
    err = b.failure cause ∧ ∀ q b' cause', Failed run (call :: q) b' cause' → Precedes p q
  ordered : ∀ p tasks, final.at? (call :: p) = some (.joined tasks) → ∃ x l request branches,
    Stood run (call :: p) x ∧ x.text? = some (l, request) ∧ Ordered branches l request ∧
      ∀ i b, branches[i]? = some b ↔ Stood run (call :: p ++ [i]) (.queued b)

/-- **A load reports its first failure.** However the calls overlap and whatever the
order of the answers, once a call has an outcome all its branches have settled, and the
outcome is a failure only if a fetch for one of them failed: the one that comes first in
the order of dispatch. -/
theorem reported {call : Nat} {o : Outcome}
    (h : Run answers ms (.loads calls) w (.joined tasks) w') (ht : tasks[call]? = some t)
    (ho : t.outcome? = some o) :
    Reported (states ms (.joined tasks) w') (.joined tasks) call o := by
  have hat : ∀ p, (Task.joined tasks).at? (call :: p) = t.at? p := fun p => by simp [ht]
  have hdone : ∀ p x, (Task.joined tasks).at? (call :: p) = some x → x.leaves = [] := by
    intro p x hx
    have hsub := Task.leaves_subset_of_at? (hat p ▸ hx)
    rw [(Task.isSome_outcome? t).1 (Option.isSome_of_eq_some ho)] at hsub
    exact List.subset_nil.1 hsub
  have hfailed : ∀ {p b cause}, Failed (states ms (.joined tasks) w') (call :: p) b cause →
      t.at? p = some (.settled (.error (b.failure cause))) := fun hf =>
    hat _ ▸ h.at?_of_failed hf (hdone _)
  have hverdict := Task.verdict_of_outcome? ho
  refine ⟨fun p b hb => ⟨h.exists_fetching hb (hdone p), ?_⟩, ?_, ?_, fun p tasks' hx => ?_⟩
  · obtain ⟨x, hx⟩ := h.at? hb
    exact ⟨x, hx, (Task.isSome_outcome? x).2 (hdone p x hx)⟩
  · constructor
    · rintro rfl p b cause hf
      exact hverdict p _ (hfailed hf)
    · intro hnone
      match o with
      | .ok () => rfl
      | .error err =>
        obtain ⟨p, hp, -⟩ := hverdict
        obtain ⟨b, cause, hf, -⟩ := h.failed_of_at? ((hat p).trans hp)
        exact absurd hf (hnone p b cause)
  · rintro err rfl
    obtain ⟨p, hp, hfirst⟩ := hverdict
    obtain ⟨b, cause, hf, he⟩ := h.failed_of_at? ((hat p).trans hp)
    exact ⟨p, b, cause, hf, he, fun q b' cause' hq => hfirst q _ (hfailed hq)⟩
  · obtain ⟨branches, hlen, hspread⟩ := h.exists_spread (List.cons_ne_nil _ _) hx
    obtain ⟨x, l, request, hs, htext, horder⟩ := hspread.text
    exact ⟨x, l, request, branches, hs, htext, horder, h.stood_iff hx hlen hspread⟩

/-! ### Two imports of one text -/

def importTwo : String := "import'./x';import'./y'"

theorem parse_importTwo : ∃ tree, Loader.parse { fetches := true } importTwo = some tree ∧
    references tree = [⟨"./x", 6, 11⟩, ⟨"./y", 18, 23⟩] := by
  have h : (Loader.parse { fetches := true } importTwo).map references =
      some [⟨"./x", 6, 11⟩, ⟨"./y", 18, 23⟩] := by decide +kernel
  simpa using h

/-- The branch of the second import at the top. -/
def branchSecond : Branch :=
  Loader.branch { fetches := true } "/a" .typescript ⟨"./y", 18, 23⟩

theorem expand_importTwo : (expand { fetches := true } ⟨importTwo, "/a", .typescript, false⟩
    {}).1 = .joined [.queued (branchBeside "/a"), .queued branchSecond] := by
  obtain ⟨tree, parsed, refs⟩ := parse_importTwo
  have hx : (Loader.candidate { fetches := true } "/a" ⟨"./x", 6, 11⟩).identifier = "/x" :=
    identifier_branchBeside_top
  have hy : (Loader.candidate { fetches := true } "/a" ⟨"./y", 18, 23⟩).identifier = "/y" := by
    decide +kernel
  have hfirst : ({} : Registry).mayLoad "/x" = true := by decide
  have hsecond : (({} : Registry).beginLoad "/x").mayLoad "/y" = true := by decide
  have hdispatch : dispatch { fetches := true } .typescript
      [(⟨"./x", 6, 11⟩, Loader.candidate { fetches := true } "/a" ⟨"./x", 6, 11⟩),
        (⟨"./y", 18, 23⟩, Loader.candidate { fetches := true } "/a" ⟨"./y", 18, 23⟩)] {} =
      ([branchBeside "/a", branchSecond],
        (({} : Registry).beginLoad "/x").beginLoad "/y") := by
    simp [dispatch, hx, hy, hfirst, hsecond, branchBeside, branchSecond, Loader.branch]
  have hne : importTwo.isEmpty = false := by decide
  simp [expand, hne, parsed, recordAndDispatch, Loader.resolve, refs, dispatch_record, hdispatch]

/-- Both imports fail, the second before the first: the first is reported. -/
theorem reported_importTwo : ∃ before m m' t' w',
    Run (fun _ _ => True) (before ++ [m, m'])
      (.loads [({ fetches := true }, ⟨importTwo, "/a", .typescript, false⟩)]) {} t' w' ∧
    m.event = .receive branchSecond (.error (.host "down")) ∧
    m'.event = .receive (branchBeside "/a") (.error (.host "down")) ∧
    Reported (states (before ++ [m, m']) t' w') t' 0
      (.error ⟨"./x", "/x", .host "down"⟩) := by
  set b := branchBeside "/a"
  set b' := branchSecond
  set fails : FetchAnswer := .error (.host "down")
  have m₁ : Move (fun _ _ => True) _ _ _ _ _ :=
    .load { fetches := true } ⟨importTwo, "/a", .typescript, false⟩ {}
  rw [expand_importTwo] at m₁
  set w₁ := (expand { fetches := true } ⟨importTwo, "/a", .typescript, false⟩ {}).2
  have m₂ : Move (fun _ _ => True) _ _ _ _ _ := .start b ⟨fails, 0⟩ 0 w₁ trivial
  set w₂ := (b.start ⟨fails, 0⟩ 0 w₁).2
  have m₃ : Move (fun _ _ => True) _ _ _ _ _ := .start b' ⟨fails, 0⟩ 0 w₂ trivial
  set w₃ := (b'.start ⟨fails, 0⟩ 0 w₂).2
  have m₄ : Move (fun _ _ => True) _ _ _ _ _ := .receive b' fails 0 w₃
  set w₄ := (b'.receive fails w₃).2
  have m₅ : Move (fun _ _ => True) _ _ _ _ _ := .receive b fails 0 w₄
  have hrun : Run (fun _ _ => True) _ (.loads [({ fetches := true },
      ⟨importTwo, "/a", .typescript, false⟩)]) {} _ _ :=
    .head (.joined [] [] (.move m₁))
      (.head (.joined [] [] (.joined [] [_] (.move m₂)))
        (.head (.joined [] [] (.joined [_] [] (.move m₃)))
          (.head (.joined [] [] (.joined [_] [] (.move m₄)))
            (.head (.joined [] [] (.joined [] [_] (.move m₅))) (.refl _ _)))))
  refine ⟨[_, _, _], _, _, _, _, hrun, rfl, rfl, ?_⟩
  have hfailure : b.failure (.host "down") = ⟨"./x", "/x", .host "down"⟩ := by
    simp [b, Branch.failure, identifier_branchBeside_top]
    rfl
  rw [← hfailure]
  exact reported hrun rfl rfl

end ModuleGraph
