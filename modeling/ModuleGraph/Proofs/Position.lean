/-
# Positions in a tree of loads

A task that goes on in others is a tree, and what is dispatched for a text stands below
it, in the order of the text. A position is the list of indices on the way down from
the root, and the order of positions as lists is that in which a search that goes down
before it goes on meets them.

A step changes one position: what stands elsewhere stays, what stands above goes on, and
what is new stands below (`Step.at?`, `Step.at?_inv`).

Key definitions: `Task.at?`, `Stood`.
Key theorems: `Task.leaves_subset_of_at?`, `Step.at?`, `Step.at?_inv`, `Move.at?_below`,
`Run.at?`.
-/
import ModuleGraph.Proofs.Finality

namespace ModuleGraph

namespace Task

/-- What stands at a position of a task. -/
def at? : Task → List Nat → Option Task
  | t, [] => some t
  | joined tasks, i :: p => tasks[i]?.bind fun t => t.at? p
  | _, _ :: _ => none

@[simp] theorem at?_nil (t : Task) : t.at? [] = some t := by
  cases t <;> rfl

@[simp] theorem at?_joined_cons (tasks : List Task) (i : Nat) (p : List Nat) :
    (joined tasks).at? (i :: p) = tasks[i]?.bind fun t => t.at? p := rfl

@[simp] theorem at?_queued_cons (b : Branch) (i : Nat) (p : List Nat) :
    (queued b).at? (i :: p) = none := rfl

@[simp] theorem at?_settled_cons (o : Outcome) (i : Nat) (p : List Nat) :
    (settled o).at? (i :: p) = none := rfl

/-- What is still to be done at a position is still to be done. -/
theorem leaves_subset_of_at? : ∀ {p : List Nat} {t x : Task}, t.at? p = some x →
    x.leaves ⊆ t.leaves
  | [], t, x, h => by
    obtain rfl : t = x := by simpa using h
    exact List.Subset.refl _
  | i :: p, .joined tasks, x, h => by
    obtain ⟨t, ht, hx⟩ := Option.bind_eq_some_iff.1 h
    obtain ⟨before, after, rfl⟩ := List.append_of_mem (List.mem_of_getElem? ht)
    intro leaf hleaf
    have hm := leaves_subset_of_at? hx hleaf
    simp [leaves, leavesOf_append, leavesOf, hm]
  | _ :: _, .load .., _, h => by simp [at?] at h
  | _ :: _, .queued _, _, h => by simp at h
  | _ :: _, .fetching .., _, h => by simp [at?] at h
  | _ :: _, .settled _, _, h => by simp at h

end Task

variable {answers : Answers} {e : Event} {t t' x x' : Task} {w w' : Workspace}
  {ms : List Moment} {p : List Nat}

/-! ### Steps -/

/-- Below what moves there is nothing. -/
theorem Move.at?_cons (h : Move answers e t w t' w') (i : Nat) (p : List Nat) :
    t.at? (i :: p) = none := by
  cases h <;> rfl

/-- What stands at a position stays through a step, or makes it. -/
theorem Step.at? (h : Step answers e t w t' w') : ∀ {p : List Nat} {x : Task},
    t.at? p = some x → t'.at? p = some x ∨ ∃ x', t'.at? p = some x' ∧ Step answers e x w x' w' := by
  induction h with
  | move hm =>
    intro p x hx
    cases p with
    | nil =>
      obtain rfl := Option.some.inj (Task.at?_nil _ ▸ hx)
      exact .inr ⟨_, Task.at?_nil _, .move hm⟩
    | cons i p => simp [hm.at?_cons] at hx
  | joined before after hs ih =>
    intro p x hx
    cases p with
    | nil =>
      obtain rfl := Option.some.inj (Task.at?_nil _ ▸ hx)
      exact .inr ⟨_, Task.at?_nil _, .joined before after hs⟩
    | cons i p =>
      rcases Nat.lt_trichotomy i before.length with hi | rfl | hi
      · left
        simpa [List.getElem?_append, hi] using hx
      · simpa using ih (by simpa using hx)
      · left
        obtain ⟨k, rfl⟩ := Nat.exists_eq_add_of_lt hi
        simpa [List.getElem?_append, Nat.add_assoc] using hx

theorem expand_at?_cons {l : Loader} {request : LoadRequest} {i : Nat}
    (h : (expand l request w).1.at? (i :: p) = some x) : ∃ b, x = .queued b := by
  rcases expand_fst l request w with he | he
  · simp [he] at h
  · rw [he, Task.at?_joined_cons, List.getElem?_map] at h
    obtain ⟨y, hy, hx⟩ := Option.bind_eq_some_iff.1 h
    obtain ⟨b, -, rfl⟩ := Option.map_eq_some_iff.1 hy
    cases p with
    | nil => exact ⟨b, by simpa [eq_comm] using hx⟩
    | cons j p => simp at hx

/-- What is new below a position is a branch. -/
theorem Move.at?_below (h : Move answers e t w t' w') {i : Nat}
    (hx : t'.at? (i :: p) = some x) : ∃ b, x = .queued b := by
  cases h with
  | load l request => exact expand_at?_cons hx
  | start b delivery now _ => simp [Branch.start, Task.at?] at hx
  | receive b answer due =>
    cases answer with
    | error cause => simp [Branch.receive] at hx
    | ok fetched =>
      exact receive_cases (P := fun r => r.1.at? (i :: p) = some x → ∃ b, x = .queued b)
        (fun l request h => expand_at?_cons h) (fun h => by simp at h) hx

/-- What stands at a position was there before, or a step at the position made it, or
it is a branch that is new there. -/
theorem Step.at?_inv (h : Step answers e t w t' w') : ∀ {p : List Nat} {x' : Task},
    t'.at? p = some x' → t.at? p = some x' ∨
      (∃ x, t.at? p = some x ∧ Step answers e x w x' w') ∨ ∃ b, x' = .queued b := by
  induction h with
  | move hm =>
    intro p x' hx
    cases p with
    | nil =>
      obtain rfl := Option.some.inj (Task.at?_nil _ ▸ hx)
      exact .inr (.inl ⟨_, Task.at?_nil _, .move hm⟩)
    | cons i p => exact .inr (.inr (hm.at?_below hx))
  | joined before after hs ih =>
    intro p x' hx
    cases p with
    | nil =>
      obtain rfl := Option.some.inj (Task.at?_nil _ ▸ hx)
      exact .inr (.inl ⟨_, Task.at?_nil _, .joined before after hs⟩)
    | cons i p =>
      rcases Nat.lt_trichotomy i before.length with hi | rfl | hi
      · left
        simpa [List.getElem?_append, hi] using hx
      · simpa using ih (by simpa using hx)
      · left
        obtain ⟨k, rfl⟩ := Nat.exists_eq_add_of_lt hi
        simpa [List.getElem?_append, Nat.add_assoc] using hx

/-! ### Runs -/

/-- At some point something stood at a position. -/
def Stood (run : List (Task × Workspace)) (p : List Nat) (x : Task) : Prop :=
  ∃ s ∈ run, s.1.at? p = some x

/-- Where something stood, something stands in the end. -/
theorem Run.at? (h : Run answers ms t w t' w') (hx : Stood (states ms t' w') p x) :
    ∃ x', t'.at? p = some x' := by
  obtain ⟨s, hs, hx⟩ := hx
  obtain ⟨_, _, -, -, hafter⟩ := h.through s hs
  refine hafter.invariant (P := fun t _ => ∃ x', t.at? p = some x') ?_ ⟨x, hx⟩
  rintro e t w t' w' hstep ⟨y, hy⟩
  rcases hstep.at? hy with hy | ⟨y', hy', -⟩
  · exact ⟨y, hy⟩
  · exact ⟨y', hy'⟩

end ModuleGraph
