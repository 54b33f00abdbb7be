/-
# Scheduling

One order among those in which loads may overlap. Tasks are advanced in the
order of dispatch, each as far as it can go: a fetch whose answer is there is
received at once, before the next branch begins. When none can go on, the
clock jumps to the time at which the next answer arrives.

Key definitions: `poll`, `settle`.
-/
import ModuleGraph.Loader

namespace ModuleGraph

namespace Task

mutual
/-- Advances the tasks within a task that do not consist of others. -/
def advance (leaf : Task → Workspace → Task × Workspace) : Task → Workspace → Task × Workspace
  | joined tasks, w =>
    let r := advanceAll leaf tasks w
    (joined r.1, r.2)
  | load l request, w => leaf (load l request) w
  | queued b, w => leaf (queued b) w
  | fetching b answer due, w => leaf (fetching b answer due) w
  | settled o, w => (settled o, w)

def advanceAll (leaf : Task → Workspace → Task × Workspace) :
    List Task → Workspace → List Task × Workspace
  | [], w => ([], w)
  | t :: rest, w =>
    let r := advance leaf t w
    let s := advanceAll leaf rest r.2
    (r.1 :: s.1, s.2)
end

/-- The earlier of two times. -/
def earlier : Option Nat → Option Nat → Option Nat
  | none, b => b
  | a, none => a
  | some a, some b => some (min a b)

mutual
/-- When the next answer to a task arrives. -/
def nextDue? : Task → Option Nat
  | fetching _ _ due => some due
  | joined tasks => nextDueOf tasks
  | load .. => none
  | queued _ => none
  | settled _ => none

def nextDueOf : List Task → Option Nat
  | [] => none
  | t :: rest => earlier (nextDue? t) (nextDueOf rest)
end

end Task

/-- Advances a task as far as it can go at a time; `fuel` bounds the depth. -/
def poll (fetcher : Fetcher) (now : Nat) : Nat → Task → Workspace → Task × Workspace
  | 0, t, w => (t, w)
  | fuel + 1, t, w =>
    t.advance (fun t w =>
      match t with
      | .load l request =>
        let r := expand l request w
        poll fetcher now fuel r.1 r.2
      | .queued b =>
        let r := b.start (fetcher b.request) now w
        poll fetcher now fuel r.1 r.2
      | .fetching b answer due =>
        if due ≤ now then
          let r := b.receive answer w
          poll fetcher now fuel r.1 r.2
        else (.fetching b answer due, w)
      | t => (t, w)) w

/-- Advances a task until it is settled, and gives the time at which it is;
`fuel` bounds the jumps of the clock and the depth. -/
def settle (fetcher : Fetcher) : Nat → Nat → Task → Workspace → Nat × Task × Workspace
  | 0, now, t, w => (now, t, w)
  | fuel + 1, now, t, w =>
    let r := poll fetcher now (fuel + 1) t w
    match r.1.nextDue? with
    | none => (now, r.1, r.2)
    | some due => settle fetcher fuel (max now due) r.1 r.2

end ModuleGraph
