/-
# How long loads may go on

Every step is paid for. A load that has not begun is worth a step for itself and two for
each reference of its text: that its fetch begins, and that it is answered. What a
fetched text adds is granted when it is admitted, and no identifier is admitted twice.
So loads that lead to finitely many identifiers, by texts with a bounded number of
references, come to an end, in whatever order they are advanced. Where they have not,
some step can be taken.

Key definitions: `Task.price`, `Task.cost`, `Moment.grant`, `Settles`.
Key theorems: `Step.cost_lt`, `Run.length_add_cost_le`, `Run.length_le`, `Task.exists_step`,
`not_settles`.
-/
import Mathlib.Algebra.Order.BigOperators.Group.List
import Mathlib.Data.Set.Card
import ModuleGraph.Proofs.Admission

namespace ModuleGraph

namespace Task

/-- The most steps that a leaf takes, apart from what is fetched for it. -/
def price : Task → Nat
  | load l request => 1 + 2 * (l.dependencies request).length
  | queued _ => 2
  | fetching .. => 1
  | _ => 0

/-- The most steps that a task takes, apart from what is fetched for it. -/
def cost (t : Task) : Nat := (t.leaves.map price).sum

@[simp] theorem cost_settled (o : Outcome) : (settled o).cost = 0 := rfl

theorem cost_expand_le (l : Loader) (request : LoadRequest) (w : Workspace) :
    (expand l request w).1.cost ≤ 2 * (l.dependencies request).length := by
  have hqueued : ∀ branches : List Branch,
      ((branches.map queued).map price).sum = 2 * branches.length := by
    intro branches
    simp [Function.comp_def, price, Nat.mul_comm]
  have hsub : ((dispatch l request.language (l.dependencies request) w.registry).1.map
      fun b => (b.specifier, b.candidate)).Sublist _ := dispatch_sublist ..
  have hle := hsub.length_le
  rw [cost, leaves_expand, hqueued]
  simpa using hle

end Task

/-- What the text that is admitted at a moment may take. -/
def Moment.grant (m : Moment) : Nat :=
  match m.admitted? with
  | some (b, fetched) => 2 * (b.loader.dependencies (b.continuation fetched)).length
  | none => 0

variable {answers : Answers} {e : Event} {t t' : Task} {w w' : Workspace} {ms : List Moment}

/-! ### Steps -/

theorem Move.cost_lt (h : Move answers e t w t' w') (whole : Task) :
    t'.cost < t.price + (⟨e, whole, w⟩ : Moment).grant := by
  cases h with
  | load l request =>
    have hle := Task.cost_expand_le l request w
    simp only [Task.price]
    omega
  | start b delivery now _ =>
    have hcost : (b.start delivery now w).1.cost = 1 := rfl
    rw [hcost, Task.price]
    omega
  | receive b answer due =>
    cases answer with
    | error cause => simp [Branch.receive, Task.price]
    | ok fetched =>
      by_cases ha : b.Admits fetched w.registry
      · have hgrant : (⟨.receive b (.ok fetched), whole, w⟩ : Moment).grant =
            2 * (b.loader.dependencies (b.continuation fetched)).length := by
          simp [Moment.grant, Moment.admitted?, ha]
        have hle := Task.cost_expand_le b.loader (b.continuation fetched) (b.noted fetched w)
        rw [receive_of_admits ha, hgrant]
        simp only [Task.price]
        exact Nat.lt_of_le_of_lt hle (by omega)
      · rw [receive_of_not_admits ha]
        simp [Task.price]

/-- A step costs more than it leaves, unless a text is admitted at it. -/
theorem Step.cost_lt (h : Step answers e t w t' w') :
    t'.cost < t.cost + (⟨e, t, w⟩ : Moment).grant := by
  obtain ⟨before, leaf, after, new, hm, ht, ht'⟩ := h.splice
  have hlt := hm.cost_lt t
  have hcost : t.cost =
      (before.map Task.price).sum + (leaf.price + (after.map Task.price).sum) := by
    simp [Task.cost, ht]
  have hcost' : t'.cost =
      (before.map Task.price).sum + (new.cost + (after.map Task.price).sum) := by
    simp [Task.cost, ht']
  omega

/-! ### Runs -/

/-- The steps of a run are paid for at its beginning, or by what is admitted on the way. -/
theorem Run.length_add_cost_le (h : Run answers ms t w t' w') :
    ms.length + t'.cost ≤ t.cost + (ms.map Moment.grant).sum := by
  induction h with
  | refl => simp
  | head hs _ ih =>
    have hlt := hs.cost_lt
    simp only [List.length_cons, List.map_cons, List.sum_cons]
    omega

/-- Where every admitted text has at most so many references, grants are bounded. -/
theorem sum_grant_le {size : Nat} (h : ∀ m ∈ ms, ∀ b fetched, m.admitted? = some (b, fetched) →
    (b.loader.dependencies (b.continuation fetched)).length ≤ size) :
    (ms.map Moment.grant).sum ≤ 2 * size * (admitted ms).length := by
  induction ms with
  | nil => simp
  | cons m ms ih =>
    have hrest := ih fun m' hm' => h m' (List.mem_cons_of_mem _ hm')
    cases hadm : m.admitted? with
    | none => simpa [Moment.grant, admitted, hadm] using hrest
    | some p =>
      have hsize := h m List.mem_cons_self p.1 p.2 hadm
      have hgrant : m.grant = 2 * (p.1.loader.dependencies (p.1.continuation p.2)).length := by
        simp [Moment.grant, hadm]
      have hlen : (admitted (m :: ms)).length = (admitted ms).length + 1 := by
        simp [admitted, hadm]
      rw [List.map_cons, List.sum_cons, hgrant, hlen, Nat.mul_add, Nat.mul_one]
      omega

/-- **Loads come to an end** if they lead to finitely many identifiers, by texts with a
bounded number of references. -/
theorem Run.length_le {calls : List (Loader × LoadRequest)} {ids : Set String} {size : Nat}
    (finite : ids.Finite) (h : Run answers ms (.loads calls) w t' w')
    (admits : ∀ m ∈ ms, ∀ b fetched, m.admitted? = some (b, fetched) →
      b.resolved fetched ∈ ids ∧
        (b.loader.dependencies (b.continuation fetched)).length ≤ size) :
    ms.length ≤ (Task.loads calls).cost + 2 * size * ids.ncard := by
  obtain ⟨others, ho⟩ := exists_owned_loads calls w
  have hcost := h.length_add_cost_le
  have hgrant := sum_grant_le fun m hm b fetched hadm => (admits m hm b fetched hadm).2
  have hsub : ((admitted ms).toFinset : Set String) ⊆ ids := by
    intro id hid
    obtain ⟨m, hm, b, fetched, he, ha, rfl⟩ := mem_admitted.1 (by simpa using hid)
    exact (admits m hm b fetched (Moment.admitted?_eq_some.2 ⟨he, ha⟩)).1
  have hcard : (admitted ms).length ≤ ids.ncard := by
    rw [← List.toFinset_card_of_nodup (h.nodup_admitted ho), ← Set.ncard_coe_finset]
    exact Set.ncard_le_ncard hsub finite
  calc ms.length
      ≤ (Task.loads calls).cost + (ms.map Moment.grant).sum := (Nat.le_add_right _ _).trans hcost
    _ ≤ (Task.loads calls).cost + 2 * size * (admitted ms).length := Nat.add_le_add_left hgrant _
    _ ≤ (Task.loads calls).cost + 2 * size * ids.ncard :=
      Nat.add_le_add_left (Nat.mul_le_mul_left (2 * size) hcard) _

/-! ### Progress -/

namespace Task

mutual
/-- What has no outcome can take a step, if every request has an answer. -/
theorem exists_step (total : ∀ request, ∃ answer, answers request answer) :
    ∀ (t : Task) (w : Workspace), t.leaves ≠ [] → ∃ e t' w', Step answers e t w t' w'
  | joined tasks, w, h => by
    obtain ⟨before, t, after, e, t', w', rfl, hs⟩ := exists_step_among total tasks w h
    exact ⟨e, _, w', .joined before after hs⟩
  | load l request, w, _ => ⟨_, _, _, .move (.load l request w)⟩
  | queued b, w, _ => by
    obtain ⟨answer, ha⟩ := total b.request
    exact ⟨_, _, _, .move (.start b ⟨answer, 0⟩ 0 w ha)⟩
  | fetching b answer due, w, _ => ⟨_, _, _, .move (.receive b answer due w)⟩
  | settled _, _, h => absurd rfl h

theorem exists_step_among (total : ∀ request, ∃ answer, answers request answer) :
    ∀ (tasks : List Task) (w : Workspace), leavesOf tasks ≠ [] → ∃ before t after e t' w',
      tasks = before ++ t :: after ∧ Step answers e t w t' w'
  | [], _, h => absurd rfl h
  | t :: rest, w, h => by
    by_cases ht : t.leaves = []
    · have hrest : leavesOf rest ≠ [] := by simpa [leavesOf, ht] using h
      obtain ⟨before, t₁, after, e, t', w', rfl, hs⟩ := exists_step_among total rest w hrest
      exact ⟨t :: before, t₁, after, e, t', w', rfl, hs⟩
    · obtain ⟨e, t', w', hs⟩ := exists_step total t w ht
      exact ⟨[], t, rest, e, t', w', rfl, hs⟩
end

end Task

/-! ### Settling -/

/-- In whatever order its fetches are answered, a task settles: it takes a bounded number
of steps, and can take another as long as it has no outcome. -/
structure Settles (answers : Answers) (t : Task) (w : Workspace) : Prop where
  bounded : ∃ n, ∀ ms t' w', Run answers ms t w t' w' → ms.length ≤ n
  progress : ∀ ms t' w', Run answers ms t w t' w' → t'.outcome? = none →
    ∃ e t'' w'', Step answers e t' w' t'' w''

theorem Task.exists_step_of_unsettled (total : ∀ request, ∃ answer, answers request answer)
    (h : t.outcome? = none) (w : Workspace) : ∃ e t' w', Step answers e t w t' w' := by
  refine t.exists_step total w fun hl => ?_
  have hs := (isSome_outcome? t).2 hl
  simp [h] at hs

theorem Settles.of_bounded (total : ∀ request, ∃ answer, answers request answer)
    (bounded : ∃ n, ∀ ms t' w', Run answers ms t w t' w' → ms.length ≤ n) :
    Settles answers t w :=
  ⟨bounded, fun _ t' w' _ h => t'.exists_step_of_unsettled total h w'⟩

theorem Fetcher.answers_total (fetcher : Fetcher) (request : FetchRequest) :
    ∃ answer, fetcher.answers request answer :=
  ⟨(fetcher request).answer, rfl⟩

/-- What never has an outcome goes on without end. -/
theorem not_settles (total : ∀ request, ∃ answer, answers request answer)
    (unsettled : ∀ ms t' w', Run answers ms t w t' w' → t'.outcome? = none) :
    ¬ Settles answers t w := by
  intro h
  obtain ⟨n, hn⟩ := h.bounded
  have hlong : ∀ n, ∃ ms t' w', Run answers ms t w t' w' ∧ ms.length = n := by
    intro n
    induction n with
    | zero => exact ⟨[], t, w, .refl t w, rfl⟩
    | succ n ih =>
      obtain ⟨ms, t', w', hrun, hlen⟩ := ih
      obtain ⟨e, t'', w'', hs⟩ :=
        t'.exists_step_of_unsettled total (unsettled ms t' w' hrun) w'
      exact ⟨_, t'', w'', hrun.trans (.head hs (.refl t'' w'')), by simp [hlen]⟩
  obtain ⟨ms, t', w', hrun, hlen⟩ := hlong (n + 1)
  have hle := hn ms t' w' hrun
  omega

end ModuleGraph
