/-
# The registry

What a session knows: the files it has parsed, and how far the load of each
identifier has come. An identifier is absent, then loading, then loaded or
failed; only a failed one is loaded again.

Every recorded file carries a stamp that no other recording has, so that a
tree that was held can be told from one that was recorded later with the same
content.

Key definitions: `FileInfo`, `LoadStatus`, `Registry`, `Registry.beginLoad`,
`Registry.record`.
-/
import ModuleGraph.Reference

namespace ModuleGraph

structure FileInfo where
  tree : Json
  /-- Which recording this is. -/
  stamp : Nat
  /-- The references of the tree. -/
  imports : List Reference
  /-- The candidate identifier of each reference; none without a fetcher. -/
  filepaths : List String
  deriving Inhabited

inductive LoadStatus where
  | loading
  | success
  | error
  deriving DecidableEq, Repr, Inhabited

namespace LoadStatus

def id : LoadStatus → String
  | loading => "loading"
  | success => "success"
  | error => "error"

def all : List LoadStatus := [loading, success, error]

/-- A module that is loading or loaded is not fetched. -/
def blocksFetch : LoadStatus → Bool
  | loading => true
  | success => true
  | error => false

end LoadStatus

structure Registry where
  files : Table String FileInfo := []
  statuses : Table String LoadStatus := []
  /-- How many files have been recorded. -/
  recorded : Nat := 0
  deriving Inhabited

namespace Registry

def fileInfo? (r : Registry) (identifier : String) : Option FileInfo := r.files.get? identifier

def tree? (r : Registry) (identifier : String) : Option Json :=
  (r.fileInfo? identifier).map FileInfo.tree

def status? (r : Registry) (identifier : String) : Option LoadStatus :=
  r.statuses.get? identifier

/-- Replaces what is recorded of a file. -/
def record (identifier : String) (tree : Json) (filepaths : List String) (r : Registry) :
    Registry :=
  { r with
    files := r.files.put identifier ⟨tree, r.recorded, references tree, filepaths⟩
    recorded := r.recorded + 1 }

def setStatus (identifier : String) (status : LoadStatus) (r : Registry) : Registry :=
  { r with statuses := r.statuses.put identifier status }

/-- Whether the load of an identifier may begin. -/
def mayLoad (r : Registry) (identifier : String) : Bool :=
  match r.status? identifier with
  | some status => !status.blocksFetch
  | none => true

/-- Begins the load of an identifier, if it may begin. -/
def beginLoad (identifier : String) (r : Registry) : Registry :=
  if r.mayLoad identifier then r.setStatus identifier .loading else r

/-- The identifiers of the recorded files, in order. -/
def identifiers (r : Registry) : List String := r.files.keys.mergeSort

def size (r : Registry) : Nat := r.files.length

/-- Forgets every file and every status. -/
def clear (r : Registry) : Registry := { r with files := [], statuses := [] }

@[simp] theorem status?_setStatus (r : Registry) (identifier other : String)
    (status : LoadStatus) : (r.setStatus identifier status).status? other =
      if identifier = other then some status else r.status? other :=
  Table.get?_put ..

theorem mayLoad_eq_true_iff (r : Registry) (identifier : String) :
    r.mayLoad identifier = true ↔
      r.status? identifier = none ∨ r.status? identifier = some .error := by
  unfold mayLoad
  rcases r.status? identifier with _ | _ | _ | _ <;> simp [LoadStatus.blocksFetch]

theorem mayLoad_eq_false_iff (r : Registry) (identifier : String) :
    r.mayLoad identifier = false ↔
      r.status? identifier = some .loading ∨ r.status? identifier = some .success := by
  unfold mayLoad
  rcases r.status? identifier with _ | _ | _ | _ <;> simp [LoadStatus.blocksFetch]

theorem beginLoad_of_blocked {r : Registry} {identifier : String}
    (h : r.mayLoad identifier = false) : r.beginLoad identifier = r := by
  simp [beginLoad, h]

theorem status?_beginLoad (r : Registry) (identifier other : String) :
    (r.beginLoad identifier).status? other =
      if r.mayLoad identifier ∧ identifier = other then some .loading else r.status? other := by
  unfold beginLoad
  split
  · simp [*]
  · simp [*]

@[simp] theorem files_beginLoad (r : Registry) (identifier : String) :
    (r.beginLoad identifier).files = r.files := by
  unfold beginLoad
  split <;> rfl

@[simp] theorem recorded_beginLoad (r : Registry) (identifier : String) :
    (r.beginLoad identifier).recorded = r.recorded := by
  unfold beginLoad
  split <;> rfl

/-- What has begun is not free; all else is as free as before. -/
theorem mayLoad_beginLoad (r : Registry) (identifier other : String) :
    (r.beginLoad identifier).mayLoad other = true ↔
      identifier ≠ other ∧ r.mayLoad other = true := by
  by_cases h : identifier = other
  · subst h
    cases hfree : r.mayLoad identifier with
    | false => simp [beginLoad_of_blocked hfree, hfree]
    | true => simp [mayLoad_eq_true_iff (r.beginLoad identifier), status?_beginLoad, hfree]
  · simp [mayLoad_eq_true_iff, status?_beginLoad, h]

@[simp] theorem status?_record (r : Registry) (identifier other : String) (tree : Json)
    (filepaths : List String) :
    (r.record identifier tree filepaths).status? other = r.status? other := rfl

@[simp] theorem mayLoad_record (r : Registry) (identifier other : String) (tree : Json)
    (filepaths : List String) :
    (r.record identifier tree filepaths).mayLoad other = r.mayLoad other := rfl

theorem beginLoad_record (r : Registry) (identifier other : String) (tree : Json)
    (filepaths : List String) : (r.record identifier tree filepaths).beginLoad other =
      (r.beginLoad other).record identifier tree filepaths := by
  unfold beginLoad
  rw [mayLoad_record]
  split <;> rfl

@[simp] theorem fileInfo?_record (r : Registry) (identifier other : String) (tree : Json)
    (filepaths : List String) : (r.record identifier tree filepaths).fileInfo? other =
      if identifier = other then some ⟨tree, r.recorded, references tree, filepaths⟩
      else r.fileInfo? other :=
  Table.get?_put ..

end Registry

end ModuleGraph
