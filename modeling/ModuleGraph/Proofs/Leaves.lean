/-
# What of a task is still to be done

A task is a tree, but what can happen to it next depends on its leaves only: the
loads that have not begun and the branches that are under way, in the order of
dispatch. A step takes one leaf away and puts the leaves of what becomes of it
in its place (`Step.splice`), and a task is settled when no leaf is left
(`Task.isSome_outcome?`). Every leaf that can move may do so, wherever it stands, so
that tasks with the same leaves run alike (`Run.of_leaves`). What steps preserve, runs
preserve (`Run.preserves`).

Key definitions: `Task.leaves`, `Task.identifiers`, `Task.inFlight`.
Key theorems: `Task.isSome_outcome?`, `Step.splice`, `Task.step_of_leaf`,
`Step.inFlight_perm`, `Step.mem_inFlight`, `Run.preserves`, `Run.joined_inv`, `Run.of_settled`,
`Run.of_leaves`, `Run.mono`.
-/
import Mathlib.Data.List.Basic
import ModuleGraph.Loader.Interleaving

namespace ModuleGraph

namespace Task

/-! ### Leaves -/

mutual
/-- The parts of a task that do not consist of others and are not settled. -/
def leaves : Task → List Task
  | joined tasks => leavesOf tasks
  | load l request => [load l request]
  | queued b => [queued b]
  | fetching b answer due => [fetching b answer due]
  | settled _ => []

def leavesOf : List Task → List Task
  | [] => []
  | t :: rest => leaves t ++ leavesOf rest
end

theorem leavesOf_append : ∀ a b : List Task, leavesOf (a ++ b) = leavesOf a ++ leavesOf b
  | [], _ => rfl
  | t :: a, b => by simp [leavesOf, leavesOf_append a b]

@[simp] theorem leaves_settled (o : Outcome) : (settled o).leaves = [] := rfl

@[simp] theorem leaves_joined_queued : ∀ branches : List Branch,
    (joined (branches.map queued)).leaves = branches.map queued
  | [] => rfl
  | b :: rest => by
    have ih := leaves_joined_queued rest
    simp only [leaves] at ih
    simp [leaves, leavesOf, ih]

theorem leaves_loads : ∀ calls : List (Loader × LoadRequest),
    (loads calls).leaves = calls.map fun c => load c.1 c.2
  | [] => rfl
  | c :: rest => by
    have ih := leaves_loads rest
    simp only [loads, leaves] at ih
    simp [loads, leaves, leavesOf, ih]

theorem isSome_combine_cons (o : Option Outcome) (rest : List (Option Outcome)) :
    (combine (o :: rest)).isSome ↔ o.isSome ∧ (combine rest).isSome := by
  cases o <;> cases h : combine rest <;> simp [combine, h]

mutual
/-- A task has an outcome when nothing of it is still to be done. -/
theorem isSome_outcome? : ∀ t : Task, t.outcome?.isSome ↔ t.leaves = []
  | joined tasks => by simpa [outcome?, leaves] using isSome_combine_outcomes tasks
  | load l request => by simp [outcome?, leaves]
  | queued b => by simp [outcome?, leaves]
  | fetching b answer due => by simp [outcome?, leaves]
  | settled o => by simp [outcome?, leaves]

theorem isSome_combine_outcomes : ∀ tasks : List Task,
    (combine (outcomes tasks)).isSome ↔ leavesOf tasks = []
  | [] => by simp [outcomes, combine, leavesOf]
  | t :: rest => by
    rw [outcomes, isSome_combine_cons, isSome_outcome? t, isSome_combine_outcomes rest]
    simp [leavesOf]
end

/-- Tasks that all go well go well together. -/
theorem outcome?_joined_ok : ∀ {tasks : List Task}, (∀ t ∈ tasks, t.outcome? = some (.ok ())) →
    (joined tasks).outcome? = some (.ok ())
  | [], _ => rfl
  | t :: rest, h => by
    have hrest := outcome?_joined_ok fun x hx => h x (List.mem_cons_of_mem _ hx)
    simp only [outcome?] at hrest
    simp [outcome?, outcomes, combine, h t List.mem_cons_self, hrest]

/-! ### Branches under way -/

def branch? : Task → Option Branch
  | queued b => some b
  | fetching b _ _ => some b
  | _ => none

/-- The identifiers that the branches among some leaves were dispatched for. -/
def identifiers (leaves : List Task) : List String :=
  (leaves.filterMap branch?).map Branch.identifier

/-- The identifiers of the branches of a task whose fetch has not completed. -/
def inFlight (t : Task) : List String := identifiers t.leaves

@[simp] theorem identifiers_nil : identifiers [] = [] := rfl

@[simp] theorem identifiers_append (a b : List Task) :
    identifiers (a ++ b) = identifiers a ++ identifiers b := by
  simp [identifiers]

@[simp] theorem identifiers_cons_load (l : Loader) (request : LoadRequest) (rest : List Task) :
    identifiers (load l request :: rest) = identifiers rest := rfl

@[simp] theorem identifiers_cons_queued (b : Branch) (rest : List Task) :
    identifiers (queued b :: rest) = b.identifier :: identifiers rest := rfl

@[simp] theorem identifiers_cons_fetching (b : Branch) (answer : FetchAnswer) (due : Nat)
    (rest : List Task) :
    identifiers (fetching b answer due :: rest) = b.identifier :: identifiers rest := rfl

@[simp] theorem identifiers_map_queued : ∀ branches : List Branch,
    identifiers (branches.map queued) = branches.map Branch.identifier
  | [] => rfl
  | b :: rest => by simp [identifiers_map_queued rest]

theorem mem_inFlight {t leaf : Task} {b : Branch} (h : leaf ∈ t.leaves)
    (hb : leaf.branch? = some b) : b.identifier ∈ t.inFlight :=
  List.mem_map_of_mem (List.mem_filterMap.2 ⟨leaf, h, hb⟩)

theorem inFlight_loads (calls : List (Loader × LoadRequest)) : (loads calls).inFlight = [] := by
  rw [inFlight, leaves_loads]
  induction calls with
  | nil => rfl
  | cons c rest ih => simpa using ih

theorem inFlight_joined_append (a b : List Task) :
    (joined (a ++ b)).inFlight = (joined a).inFlight ++ (joined b).inFlight := by
  simp [inFlight, leaves, leavesOf_append]

theorem inFlight_joined_cons (t : Task) (rest : List Task) :
    (joined (t :: rest)).inFlight = t.inFlight ++ (joined rest).inFlight := by
  simp [inFlight, leaves, leavesOf]

theorem mem_inFlight_joined (id : String) (tasks : List Task) :
    id ∈ (joined tasks).inFlight ↔ ∃ t ∈ tasks, id ∈ t.inFlight := by
  induction tasks with
  | nil => simp [inFlight, leaves, leavesOf]
  | cons t rest ih => simp [inFlight_joined_cons, ih]

end Task

/-! ### Steps and runs -/

variable {answers : Answers} {e : Event} {t t' : Task} {w w' : Workspace}

theorem Move.leaves_eq (h : Move answers e t w t' w') : t.leaves = [t] := by
  cases h <;> rfl

/-- A step is the move of a leaf, whose place its own leaves take. -/
theorem Step.splice (h : Step answers e t w t' w') : ∃ before leaf after new,
    Move answers e leaf w new w' ∧ t.leaves = before ++ leaf :: after ∧
      t'.leaves = before ++ new.leaves ++ after := by
  induction h with
  | move h => exact ⟨[], _, [], _, h, by simpa using h.leaves_eq, by simp⟩
  | joined before after h ih =>
    obtain ⟨b, leaf, a, new, hm, ht, ht'⟩ := ih
    refine ⟨Task.leavesOf before ++ b, leaf, a ++ Task.leavesOf after, new, hm, ?_, ?_⟩
    · simp [Task.leaves, Task.leavesOf_append, Task.leavesOf, ht]
    · simp [Task.leaves, Task.leavesOf_append, Task.leavesOf, ht']

namespace Task

mutual
/-- Where it is a leaf, what can move takes a step. -/
theorem step_of_leaf {leaf new : Task} (hm : Move answers e leaf w new w') :
    ∀ t : Task, leaf ∈ t.leaves → ∃ before after t', t.leaves = before ++ leaf :: after ∧
      Step answers e t w t' w' ∧ t'.leaves = before ++ new.leaves ++ after
  | joined tasks, h => by
    obtain ⟨left, t, right, rfl, before, after, t', ht, hs, ht'⟩ := step_of_leaf_among hm tasks h
    refine ⟨leavesOf left ++ before, after ++ leavesOf right, _, ?_, .joined left right hs, ?_⟩
    · simp [leaves, leavesOf_append, leavesOf, ht]
    · simp [leaves, leavesOf_append, leavesOf, ht']
  | load l request, h => by
    obtain rfl := List.mem_singleton.1 h
    exact ⟨[], [], new, rfl, .move hm, by simp⟩
  | queued b, h => by
    obtain rfl := List.mem_singleton.1 h
    exact ⟨[], [], new, rfl, .move hm, by simp⟩
  | fetching b answer due, h => by
    obtain rfl := List.mem_singleton.1 h
    exact ⟨[], [], new, rfl, .move hm, by simp⟩
  | settled o, h => by simp at h

theorem step_of_leaf_among {leaf new : Task} (hm : Move answers e leaf w new w') :
    ∀ tasks : List Task, leaf ∈ leavesOf tasks → ∃ left t right, tasks = left ++ t :: right ∧
      ∃ before after t', t.leaves = before ++ leaf :: after ∧
        Step answers e t w t' w' ∧ t'.leaves = before ++ new.leaves ++ after
  | [], h => by simp [leavesOf] at h
  | t :: rest, h => by
    rcases List.mem_append.1 h with h | h
    · exact ⟨[], t, rest, rfl, step_of_leaf hm t h⟩
    · obtain ⟨left, t', right, rfl, hs⟩ := step_of_leaf_among hm rest h
      exact ⟨t :: left, t', right, rfl, hs⟩
end

end Task

/-- What holds of every leaf, and of what becomes of a leaf that moves, goes on to hold. -/
theorem Step.forall_leaves {Q : Task → Prop} (h : Step answers e t w t' w')
    (move : ∀ {leaf new}, Move answers e leaf w new w' → Q leaf → ∀ x ∈ new.leaves, Q x)
    (start : ∀ x ∈ t.leaves, Q x) : ∀ x ∈ t'.leaves, Q x := by
  obtain ⟨before, leaf, after, new, hm, ht, ht'⟩ := h.splice
  rw [ht] at start
  rw [ht']
  intro x hx
  simp only [List.mem_append] at hx
  rcases hx with (hx | hx) | hx
  · exact start x (List.mem_append_left _ hx)
  · exact move hm (start leaf (by simp)) x hx
  · exact start x (by simp [hx])

theorem Step.receive_inv {b : Branch} {a : FetchAnswer}
    (h : Step answers (.receive b a) t w t' w') :
    (∃ due, .fetching b a due ∈ t.leaves) ∧ w' = (b.receive a w).2 := by
  obtain ⟨before, leaf, after, new, hm, ht, -⟩ := h.splice
  rw [ht]
  cases hm with
  | receive b a due => exact ⟨⟨due, by simp⟩, rfl⟩

/-- To what is under way, the place of the leaf that moves does not matter. -/
theorem Step.inFlight_perm (h : Step answers e t w t' w') : ∃ leaf new ids,
    Move answers e leaf w new w' ∧ t.inFlight.Perm (Task.identifiers leaf.leaves ++ ids) ∧
      t'.inFlight.Perm (Task.identifiers new.leaves ++ ids) := by
  obtain ⟨before, leaf, after, new, hm, ht, ht'⟩ := h.splice
  have hperm : ∀ middle : List Task, (Task.identifiers (before ++ middle ++ after)).Perm
      (Task.identifiers middle ++ (Task.identifiers before ++ Task.identifiers after)) := by
    intro middle
    simp only [Task.identifiers_append]
    exact (List.perm_append_comm.append_right _).trans (by rw [List.append_assoc])
  refine ⟨leaf, new, Task.identifiers before ++ Task.identifiers after, hm, ?_, ?_⟩
  · have hleaf : t.leaves = before ++ leaf.leaves ++ after := by simp [ht, hm.leaves_eq]
    rw [Task.inFlight, hleaf]
    exact hperm leaf.leaves
  · rw [Task.inFlight, ht']
    exact hperm new.leaves

/-- A branch stays under way until it is answered. -/
theorem Step.mem_inFlight {id : String} (h : Step answers e t w t' w') (hid : id ∈ t.inFlight) :
    id ∈ t'.inFlight ∨ ∃ b a, e = .receive b a ∧ b.identifier = id := by
  obtain ⟨leaf, new, ids, hm, ht, ht'⟩ := h.inFlight_perm
  rcases List.mem_append.1 (ht.mem_iff.1 hid) with hid | hid
  · cases hm with
    | load l request => simp [Task.leaves] at hid
    | start b delivery now _ _ => exact .inl (ht'.mem_iff.2 (List.mem_append_left _ hid))
    | receive b a due =>
      obtain rfl := List.mem_singleton.1 hid
      exact .inr ⟨b, a, rfl, rfl⟩
  · exact .inl (ht'.mem_iff.2 (List.mem_append_right _ hid))

/-- What every step preserves holds along a run. What is preserved may speak of
the moments that have passed. -/
theorem Run.preserves {P : List Moment → Task → Workspace → Prop}
    (step : ∀ {past e t w t' w'}, Step answers e t w t' w' → P past t w →
      P (past ++ [⟨e, t, w⟩]) t' w')
    {ms : List Moment} (h : Run answers ms t w t' w') (start : P [] t w) : P ms t' w' := by
  suffices ∀ past, P past t w → P (past ++ ms) t' w' from this [] start
  clear start
  induction h with
  | refl => exact fun past hp => by simpa using hp
  | head h _ ih =>
    intro past hp
    simpa using ih _ (step h hp)

theorem Run.invariant {P : Task → Workspace → Prop}
    (step : ∀ {e t w t' w'}, Step answers e t w t' w' → P t w → P t' w')
    {ms : List Moment} (h : Run answers ms t w t' w') (start : P t w) : P t' w' :=
  h.preserves (P := fun _ t w => P t w) step start

/-- What runs in several tasks goes on in as many. -/
theorem Run.joined_inv {ms : List Moment} {tasks : List Task}
    (h : Run answers ms (.joined tasks) w t' w') :
    ∃ tasks', t' = .joined tasks' ∧ tasks'.length = tasks.length := by
  refine h.invariant (P := fun t _ => ∃ tasks', t = .joined tasks' ∧
    tasks'.length = tasks.length) ?_ ⟨tasks, rfl, rfl⟩
  rintro e _ w t' w' hs ⟨tasks', rfl, hlen⟩
  generalize ht : Task.joined tasks' = t at hs
  cases hs with
  | move hm => cases hm <;> cases ht
  | joined before after _ =>
    cases ht
    exact ⟨_, rfl, by simpa using hlen⟩

/-- Nothing happens any more to what is settled. -/
theorem Run.of_settled {ms : List Moment} (h : Run answers ms t w t' w') (settled : t.leaves = []) :
    ms = [] ∧ t' = t ∧ w' = w := by
  cases h with
  | refl => exact ⟨rfl, rfl, rfl⟩
  | head hs _ =>
    obtain ⟨before, leaf, after, new, -, ht, -⟩ := hs.splice
    simp [settled] at ht

/-- What happens to a task happens to all that have the same leaves, in whatever order
these stand. -/
theorem Run.of_leaves {ms : List Moment} (h : Run answers ms t w t' w') :
    ∀ {s : Task}, s.leaves.Perm t.leaves → ∃ ms' s', Run answers ms' s w s' w' ∧
      s'.leaves.Perm t'.leaves := by
  induction h with
  | refl => exact fun hperm => ⟨[], _, .refl _ _, hperm⟩
  | @head e ms t t₁ t' w w₁ w' hs _ ih =>
    intro s hperm
    -- the leaf that moves is one of the other task too, wherever it stands there
    obtain ⟨before, leaf, after, new, hm, ht, ht'⟩ := hs.splice
    rw [ht] at hperm
    obtain ⟨before', after', s₁, hleaves, hs₁, hleaves₁⟩ :=
      Task.step_of_leaf hm s (hperm.mem_iff.2 (by simp))
    rw [hleaves] at hperm
    have hrest : (before' ++ after').Perm (before ++ after) :=
      ((List.perm_middle.symm.trans hperm).trans List.perm_middle).cons_inv
    have hleft : s₁.leaves.Perm (new.leaves ++ (before' ++ after')) := by
      rw [hleaves₁, List.append_assoc]
      exact List.perm_append_comm_assoc ..
    have hright : t₁.leaves.Perm (new.leaves ++ (before ++ after)) := by
      rw [ht', List.append_assoc]
      exact List.perm_append_comm_assoc ..
    obtain ⟨ms', s', hrun, hfinal⟩ := ih (hleft.trans ((hrest.append_left _).trans hright.symm))
    exact ⟨_, s', .head hs₁ hrun, hfinal⟩

/-! ### Other answers -/

section

variable {answers' : Answers} (sub : ∀ request answer, answers request answer →
  answers' request answer)

include sub

theorem Move.mono (h : Move answers e t w t' w') : Move answers' e t w t' w' := by
  cases h with
  | load l request => exact .load l request w
  | start b delivery now _ ha => exact .start b delivery now w (sub _ _ ha)
  | receive b answer due => exact .receive b answer due w

theorem Step.mono (h : Step answers e t w t' w') : Step answers' e t w t' w' := by
  induction h with
  | move hm => exact .move (hm.mono sub)
  | joined before after _ ih => exact .joined before after ih

/-- Where more may be answered, the same runs are possible. -/
theorem Run.mono {ms : List Moment} (h : Run answers ms t w t' w') : Run answers' ms t w t' w' := by
  induction h with
  | refl => exact .refl _ _
  | head hs _ ih => exact .head (hs.mono sub) ih

end

end ModuleGraph
