/-
# Interleavings

What overlapping loads may do, in whatever order they are advanced and whenever
their fetches are answered. A step advances one task that does not consist of
others, wherever it stands. The schedule is one of these orders: whatever it
leads to, steps lead to.

A run keeps its moments, so that what happened on the way can be spoken of when
all is settled.

Key definitions: `Task.loads`, `Event`, `Move`, `Step`, `Run`, `Leads`.
Key theorems: `leads_poll`, `leads_settle`.
-/
import ModuleGraph.Loader.Schedule

namespace ModuleGraph

/-- What may be answered to a request. -/
abbrev Answers := FetchRequest → FetchAnswer → Prop

def Fetcher.answers (fetcher : Fetcher) : Answers := fun request answer =>
  (fetcher request).answer = answer

/-- Loads that are asked for at the same time and have not begun. -/
def Task.loads (calls : List (Loader × LoadRequest)) : Task :=
  .joined (calls.map fun c => .load c.1 c.2)

/-- What happens at a step. -/
inductive Event where
  | load (loader : Loader) (request : LoadRequest)
  /-- The fetch of a branch begins; what will be answered is known from then on. -/
  | start (branch : Branch) (answer : FetchAnswer)
  | receive (branch : Branch) (answer : FetchAnswer)

/-- What a task that does not consist of others does next. -/
inductive Move (answers : Answers) : Event → Task → Workspace → Task → Workspace → Prop where
  | load (l : Loader) (request : LoadRequest) (w : Workspace) :
    Move answers (.load l request) (.load l request) w
      (expand l request w).1 (expand l request w).2
  | start (b : Branch) (delivery : Delivery) (now : Nat) (w : Workspace)
    (h : answers b.request delivery.answer) :
    Move answers (.start b delivery.answer) (.queued b) w
      (b.start delivery now w).1 (b.start delivery now w).2
  | receive (b : Branch) (answer : FetchAnswer) (due : Nat) (w : Workspace) :
    Move answers (.receive b answer) (.fetching b answer due) w
      (b.receive answer w).1 (b.receive answer w).2

inductive Step (answers : Answers) : Event → Task → Workspace → Task → Workspace → Prop where
  | move {e : Event} {t t' : Task} {w w' : Workspace} (h : Move answers e t w t' w') :
    Step answers e t w t' w'
  | joined {e : Event} (before : List Task) {t t' : Task} {w w' : Workspace} (after : List Task)
    (h : Step answers e t w t' w') :
    Step answers e (.joined (before ++ t :: after)) w (.joined (before ++ t' :: after)) w'

/-- A step of a run: what happens, and the state in which it does. -/
structure Moment where
  event : Event
  task : Task
  workspace : Workspace

/-- The same moment, in the midst of other tasks. -/
def Moment.within (before after : List Task) (m : Moment) : Moment :=
  { m with task := .joined (before ++ m.task :: after) }

/-- Any number of steps, with their moments. -/
inductive Run (answers : Answers) :
    List Moment → Task → Workspace → Task → Workspace → Prop where
  | refl (t : Task) (w : Workspace) : Run answers [] t w t w
  | head {e : Event} {ms : List Moment} {t t' t'' : Task} {w w' w'' : Workspace}
    (h : Step answers e t w t' w') (rest : Run answers ms t' w' t'' w'') :
    Run answers (⟨e, t, w⟩ :: ms) t w t'' w''

namespace Run

variable {answers : Answers} {ms ms' : List Moment} {t t' t'' : Task} {w w' w'' : Workspace}

theorem trans (h : Run answers ms t w t' w') (h' : Run answers ms' t' w' t'' w'') :
    Run answers (ms ++ ms') t w t'' w'' := by
  induction h with
  | refl => exact h'
  | head h _ ih => exact .head h (ih h')

/-- A run of one task is a run of all that are joined with it. -/
theorem joined (before after : List Task) (h : Run answers ms t w t' w') :
    Run answers (ms.map (.within before after)) (.joined (before ++ t :: after)) w
      (.joined (before ++ t' :: after)) w' := by
  induction h with
  | refl => exact .refl _ _
  | head h _ ih => exact .head (.joined before after h) ih

end Run

/-- Whether steps lead from one state to another. -/
def Leads (answers : Answers) (t : Task) (w : Workspace) (t' : Task) (w' : Workspace) : Prop :=
  ∃ ms, Run answers ms t w t' w'

namespace Leads

variable {answers : Answers} {t t' t'' : Task} {w w' w'' : Workspace}

theorem refl (t : Task) (w : Workspace) : Leads answers t w t w := ⟨[], .refl t w⟩

theorem move {e : Event} (h : Move answers e t w t' w') (rest : Leads answers t' w' t'' w'') :
    Leads answers t w t'' w'' := by
  obtain ⟨ms, rest⟩ := rest
  exact ⟨_, .head (.move h) rest⟩

theorem trans (h : Leads answers t w t' w') (h' : Leads answers t' w' t'' w'') :
    Leads answers t w t'' w'' := by
  obtain ⟨ms, h⟩ := h
  obtain ⟨ms', h'⟩ := h'
  exact ⟨ms ++ ms', h.trans h'⟩

theorem joined (before after : List Task) (h : Leads answers t w t' w') :
    Leads answers (.joined (before ++ t :: after)) w (.joined (before ++ t' :: after)) w' := by
  obtain ⟨ms, h⟩ := h
  exact ⟨_, h.joined before after⟩

end Leads

/-! ### The schedule -/

section

variable {answers : Answers} {leaf : Task → Workspace → Task × Workspace}

mutual
theorem leads_advance (h : ∀ t w, Leads answers t w (leaf t w).1 (leaf t w).2) :
    ∀ (t : Task) (w : Workspace),
      Leads answers t w (t.advance leaf w).1 (t.advance leaf w).2
  | .joined tasks, w => leads_advanceAll h [] tasks w
  | .load l request, w => h (.load l request) w
  | .queued b, w => h (.queued b) w
  | .fetching b answer due, w => h (.fetching b answer due) w
  | .settled _, _ => .refl _ _

theorem leads_advanceAll (h : ∀ t w, Leads answers t w (leaf t w).1 (leaf t w).2) :
    ∀ (before tasks : List Task) (w : Workspace),
      Leads answers (.joined (before ++ tasks)) w
        (.joined (before ++ (Task.advanceAll leaf tasks w).1)) (Task.advanceAll leaf tasks w).2
  | _, [], _ => .refl _ _
  | before, t :: rest, w => by
    have first := (leads_advance h t w).joined before rest
    have others := leads_advanceAll h (before ++ [(t.advance leaf w).1]) rest (t.advance leaf w).2
    simp only [List.append_assoc, List.singleton_append] at others
    exact first.trans others
end

end

theorem leads_poll (fetcher : Fetcher) (now : Nat) :
    ∀ (fuel : Nat) (t : Task) (w : Workspace), Leads fetcher.answers t w
      (poll fetcher now fuel t w).1 (poll fetcher now fuel t w).2
  | 0, t, w => .refl _ _
  | fuel + 1, t, w => by
    refine leads_advance (fun t w => ?_) t w
    match t with
    | .load l request => exact .move (.load l request w) (leads_poll fetcher now fuel _ _)
    | .queued b =>
      exact .move (.start b (fetcher b.request) now w rfl) (leads_poll fetcher now fuel _ _)
    | .fetching b answer due =>
      by_cases h : due ≤ now
      · simp only [h, if_true]
        exact .move (.receive b answer due w) (leads_poll fetcher now fuel _ _)
      · simp only [h, if_false]
        exact .refl _ _
    | .joined tasks => exact .refl _ _
    | .settled o => exact .refl _ _

/-- What the schedule leads to, an interleaving leads to. -/
theorem leads_settle (fetcher : Fetcher) : ∀ (fuel now : Nat) (t : Task) (w : Workspace),
    Leads fetcher.answers t w (settle fetcher fuel now t w).2.1 (settle fetcher fuel now t w).2.2
  | 0, now, t, w => .refl _ _
  | fuel + 1, now, t, w => by
    have polled := leads_poll fetcher now (fuel + 1) t w
    cases h : (poll fetcher now (fuel + 1) t w).1.nextDue? with
    | none => simpa only [settle, h] using polled
    | some due =>
      simp only [settle, h]
      exact polled.trans (leads_settle fetcher fuel _ _ _)

end ModuleGraph
