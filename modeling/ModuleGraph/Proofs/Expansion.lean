/-
# What a load and an answer change

One statement for each operation of a load, through what later proofs look at:
the statuses, the branches, and the service. A dispatch marks as loading exactly
the identifiers of its branches, and those were free; after it every reference
is loading or loaded. An expansion does to the statuses what the dispatch of its
dependencies does. An answer ends the branch: it sets the statuses of the
candidate and of what it resolved to, and expands the text if it is admitted.

Key definitions: `Loader.dependencies`, `Loader.refers`, `Loader.announce`, `Branch.Admits`,
`Branch.noted`.
Key theorems: `status?_dispatch`, `mayLoad_of_mem_dispatched`, `nodup_dispatched`,
`blocked_dispatch`, `dispatch_sublist`, `leaves_expand`, `status?_expand`, `host_expand`,
`expand_fst`, `status?_noted`, `receive_of_admits`, `receive_of_not_admits`, `receive_cases`.
-/
import Mathlib.Data.List.Nodup
import ModuleGraph.Proofs.Leaves

namespace ModuleGraph

/-! ### Dispatch -/

section

variable {l : Loader} {language : Language} {pairs rest : List (Reference × Candidate)}
  {p : Reference × Candidate} {r : Registry} {id : String}

theorem dispatch_cons_of_free (h : r.mayLoad p.2.identifier = true) :
    dispatch l language (p :: rest) r =
      (⟨l, p.1.value, p.2, language⟩ ::
          (dispatch l language rest (r.beginLoad p.2.identifier)).1,
        (dispatch l language rest (r.beginLoad p.2.identifier)).2) := by
  simp [dispatch, h]

theorem dispatch_cons_of_blocked (h : r.mayLoad p.2.identifier = false) :
    dispatch l language (p :: rest) r = dispatch l language rest r := by
  simp [dispatch, h, Registry.beginLoad_of_blocked h]

/-- The identifiers that a dispatch begins to load. -/
def dispatched (l : Loader) (language : Language) (pairs : List (Reference × Candidate))
    (r : Registry) : List String :=
  (dispatch l language pairs r).1.map Branch.identifier

theorem dispatched_cons_of_free (h : r.mayLoad p.2.identifier = true) :
    dispatched l language (p :: rest) r =
      p.2.identifier :: dispatched l language rest (r.beginLoad p.2.identifier) := by
  simp [dispatched, dispatch_cons_of_free h, Branch.identifier]

theorem dispatched_cons_of_blocked (h : r.mayLoad p.2.identifier = false) :
    dispatched l language (p :: rest) r = dispatched l language rest r := by
  simp [dispatched, dispatch_cons_of_blocked h]

/-- What begins to load was free. -/
theorem mayLoad_of_mem_dispatched : ∀ {pairs : List (Reference × Candidate)} {r : Registry},
    id ∈ dispatched l language pairs r → r.mayLoad id = true
  | [], _, h => by simp [dispatched, dispatch] at h
  | p :: rest, r, h => by
    cases hf : r.mayLoad p.2.identifier with
    | false =>
      rw [dispatched_cons_of_blocked hf] at h
      exact mayLoad_of_mem_dispatched h
    | true =>
      rw [dispatched_cons_of_free hf] at h
      rcases List.mem_cons.1 h with rfl | h
      · exact hf
      · exact ((Registry.mayLoad_beginLoad ..).1 (mayLoad_of_mem_dispatched h)).2

theorem nodup_dispatched : ∀ (pairs : List (Reference × Candidate)) (r : Registry),
    (dispatched l language pairs r).Nodup
  | [], _ => List.nodup_nil
  | p :: rest, r => by
    cases hf : r.mayLoad p.2.identifier with
    | false =>
      rw [dispatched_cons_of_blocked hf]
      exact nodup_dispatched rest r
    | true =>
      rw [dispatched_cons_of_free hf]
      refine List.nodup_cons.2 ⟨fun h => ?_, nodup_dispatched rest _⟩
      exact ((Registry.mayLoad_beginLoad ..).1 (mayLoad_of_mem_dispatched h)).1 rfl

/-- A dispatch marks what begins to load, and nothing else. -/
theorem status?_dispatch : ∀ (pairs : List (Reference × Candidate)) (r : Registry),
    (dispatch l language pairs r).2.status? id =
      if id ∈ dispatched l language pairs r then some .loading else r.status? id
  | [], r => by simp [dispatched, dispatch]
  | p :: rest, r => by
    cases hf : r.mayLoad p.2.identifier with
    | false =>
      rw [dispatched_cons_of_blocked hf, dispatch_cons_of_blocked hf]
      exact status?_dispatch rest r
    | true =>
      rw [dispatched_cons_of_free hf, dispatch_cons_of_free hf, status?_dispatch rest,
        Registry.status?_beginLoad]
      by_cases h : p.2.identifier = id
      · subst h
        simp [hf]
      · simp [h, Ne.symm h]

/-- After a dispatch no reference of it is free. -/
theorem blocked_dispatch : ∀ {pairs : List (Reference × Candidate)} {r : Registry}, p ∈ pairs →
    (dispatch l language pairs r).2.mayLoad p.2.identifier = false
  | [], _, h => by simp at h
  | q :: rest, r, h => by
    rcases List.mem_cons.1 h with rfl | h
    · rw [Registry.mayLoad_eq_false_iff, status?_dispatch]
      cases hf : r.mayLoad p.2.identifier with
      | false =>
        have hb := (Registry.mayLoad_eq_false_iff ..).1 hf
        split
        · exact .inl rfl
        · exact hb
      | true => simp [dispatched_cons_of_free hf]
    · cases hf : r.mayLoad q.2.identifier with
      | false =>
        rw [dispatch_cons_of_blocked hf]
        exact blocked_dispatch h
      | true =>
        rw [dispatch_cons_of_free hf]
        exact blocked_dispatch h

theorem mem_dispatch : ∀ {pairs : List (Reference × Candidate)} {r : Registry} {b : Branch},
    b ∈ (dispatch l language pairs r).1 → ∃ p ∈ pairs, b = ⟨l, p.1.value, p.2, language⟩
  | [], _, _, h => by simp [dispatch] at h
  | p :: rest, r, b, h => by
    cases hf : r.mayLoad p.2.identifier with
    | false =>
      rw [dispatch_cons_of_blocked hf] at h
      obtain ⟨q, hq, rfl⟩ := mem_dispatch h
      exact ⟨q, List.mem_cons_of_mem _ hq, rfl⟩
    | true =>
      rw [dispatch_cons_of_free hf] at h
      rcases List.mem_cons.1 h with rfl | h
      · exact ⟨p, List.mem_cons_self, rfl⟩
      · obtain ⟨q, hq, rfl⟩ := mem_dispatch h
        exact ⟨q, List.mem_cons_of_mem _ hq, rfl⟩

/-- The branches of a dispatch stand for some of the references, in their order. -/
theorem dispatch_sublist : ∀ (pairs : List (Reference × Candidate)) (r : Registry),
    ((dispatch l language pairs r).1.map fun b => (b.specifier, b.candidate)).Sublist
      (pairs.map fun d => (d.1.value, d.2))
  | [], _ => .slnil
  | d :: rest, r => by
    cases hf : r.mayLoad d.2.identifier with
    | false =>
      rw [dispatch_cons_of_blocked hf]
      exact (dispatch_sublist rest r).cons _
    | true =>
      rw [dispatch_cons_of_free hf]
      exact (dispatch_sublist rest _).cons_cons _

/-- Recording a file and dispatching do not see each other. -/
theorem dispatch_record (identifier : String) (tree : Json) (filepaths : List String) :
    ∀ (pairs : List (Reference × Candidate)) (r : Registry),
      dispatch l language pairs (r.record identifier tree filepaths) =
        ((dispatch l language pairs r).1,
          (dispatch l language pairs r).2.record identifier tree filepaths)
  | [], _ => rfl
  | p :: rest, r => by
    have hr := Registry.mayLoad_record r identifier p.2.identifier tree filepaths
    cases hf : r.mayLoad p.2.identifier with
    | false =>
      rw [dispatch_cons_of_blocked (hr.trans hf), dispatch_cons_of_blocked hf]
      exact dispatch_record identifier tree filepaths rest r
    | true =>
      rw [dispatch_cons_of_free (hr.trans hf), dispatch_cons_of_free hf,
        Registry.beginLoad_record, dispatch_record identifier tree filepaths rest]

end

/-! ### Expansion -/

/-- What the text of a request refers to. -/
def Loader.dependencies (l : Loader) (request : LoadRequest) : List (Reference × Candidate) :=
  match l.parse request.text with
  | none => []
  | some tree => l.resolve request.identifier tree

/-- The references of a text that a loader follows. -/
def Loader.refers (l : Loader) (text : String) : List Reference :=
  if l.fetches then ((l.parse text).map references).getD [] else []

theorem dependencies_eq (l : Loader) (request : LoadRequest) : l.dependencies request =
    (l.refers request.text).map fun ref => (ref, l.candidate request.identifier ref) := by
  unfold Loader.dependencies Loader.refers Loader.resolve
  cases hp : l.parse request.text with
  | none => simp
  | some tree => cases l.fetches <;> simp

/-- What a request registers: its text, if that was fetched and is not empty. -/
def Loader.registrations (l : Loader) (request : LoadRequest) : List Registration :=
  if request.declaration && !request.text.isEmpty then
    [⟨l.declarationOf request.identifier, request.language, request.text⟩]
  else []

/-- The service once a request is under way. -/
def Loader.announce (l : Loader) (request : LoadRequest) (s : Service) : Service :=
  if request.declaration && !request.text.isEmpty then
    let s := s.register request.text (l.declarationOf request.identifier) request.language
    if l.declarationModel then
      s.openBuffer request.text (l.declarationOf request.identifier)
    else s
  else s

theorem announce_eq_id (l : Loader) (request : LoadRequest)
    (h : (request.declaration && !request.text.isEmpty) = false) : l.announce request = id := by
  funext s
  simp [Loader.announce, h]

theorem history_announce (l : Loader) (request : LoadRequest) (s : Service) :
    (l.announce request s).history = s.history ++ l.registrations request := by
  unfold Loader.announce Loader.registrations
  cases request.declaration && !request.text.isEmpty
  · simp
  · cases l.declarationModel <;> simp

/-- What a request registers counts from then on. -/
theorem declaration?_announce (l : Loader) (request : LoadRequest) (s : Service) (name : String)
    (language : Language) : (l.announce request s).declaration? name language =
      if (request.declaration && !request.text.isEmpty) = true ∧
          l.declarationOf request.identifier = name ∧ request.language = language
      then some request.text else s.declaration? name language := by
  unfold Loader.announce
  cases h : request.declaration && !request.text.isEmpty
  · simp
  · have ht : request.text.isEmpty = false := by
      simp only [Bool.and_eq_true, Bool.not_eq_true'] at h
      exact h.2
    cases l.declarationModel <;> simp [Service.declaration?_register, ht]

section

variable (l : Loader) (request : LoadRequest) (w : Workspace)

theorem dependencies_of_isEmpty (h : request.text.isEmpty = true) :
    l.dependencies request = [] := by
  simp [Loader.dependencies, Loader.parse, Syntax.treeBy, h]

/-- A text that is registered changes the service only. -/
theorem declare_frame : (if request.declaration then
      w.declare l request.text request.identifier request.language else w).registry = w.registry ∧
    (if request.declaration then
      w.declare l request.text request.identifier request.language else w).fetches = w.fetches := by
  split <;> exact ⟨rfl, rfl⟩

/-- An expansion is the dispatch of what its text refers to. -/
theorem expand_spec :
    (expand l request w).1.leaves =
        (dispatch l request.language (l.dependencies request) w.registry).1.map .queued ∧
      (∀ id, (expand l request w).2.registry.status? id =
        (dispatch l request.language (l.dependencies request) w.registry).2.status? id) ∧
      (expand l request w).2.host = w.host.map (l.announce request) := by
  by_cases ht : request.text.isEmpty = true
  · simp [expand, ht, dependencies_of_isEmpty l request ht, dispatch,
      announce_eq_id l request (by simp [ht])]
  · have hr := (declare_frame l request w).1
    have hh : (if request.declaration then
        w.declare l request.text request.identifier request.language else w).host =
          w.host.map (l.announce request) := by
      cases hd : request.declaration with
      | false => simp [announce_eq_id l request (by simp [hd])]
      | true =>
        have ha : l.announce request = fun s =>
            let s := s.register request.text (l.declarationOf request.identifier) request.language
            if l.declarationModel then
              s.openBuffer request.text (l.declarationOf request.identifier)
            else s := by
          funext s
          simp [Loader.announce, hd, ht]
        rw [ha]
        rfl
    cases hp : l.parse request.text with
    | none => simp [expand, ht, hp, Loader.dependencies, dispatch, hr, hh]
    | some tree =>
      simp [expand, ht, hp, Loader.dependencies, recordAndDispatch, dispatch_record, hr, hh]

theorem leaves_expand : (expand l request w).1.leaves =
    (dispatch l request.language (l.dependencies request) w.registry).1.map .queued :=
  (expand_spec l request w).1

theorem identifiers_expand : Task.identifiers (expand l request w).1.leaves =
    dispatched l request.language (l.dependencies request) w.registry := by
  rw [leaves_expand, Task.identifiers_map_queued, dispatched]

theorem status?_expand (id : String) : (expand l request w).2.registry.status? id =
    if id ∈ dispatched l request.language (l.dependencies request) w.registry then some .loading
    else w.registry.status? id := by
  rw [(expand_spec l request w).2.1, status?_dispatch]

theorem host_expand : (expand l request w).2.host = w.host.map (l.announce request) :=
  (expand_spec l request w).2.2

/-- An expansion comes to nothing more, or to the branches that it dispatches. -/
theorem expand_fst : (expand l request w).1 = .settled (.ok ()) ∨ (expand l request w).1 = .joined
    ((dispatch l request.language (l.dependencies request) w.registry).1.map .queued) := by
  by_cases ht : request.text.isEmpty = true
  · left
    simp [expand, ht]
  · cases hp : l.parse request.text with
    | none =>
      left
      simp [expand, ht, hp]
    | some tree =>
      right
      simp [expand, ht, hp, Loader.dependencies, recordAndDispatch, dispatch_record,
        (declare_frame l request w).1]

variable {l request w}

/-- A text with one reference, to what is free, has one branch. -/
theorem expand_of_dependencies {ref : Reference} {c : Candidate}
    (hdeps : l.dependencies request = [(ref, c)]) (free : w.registry.mayLoad c.identifier = true) :
    (expand l request w).1 = .joined [.queued ⟨l, ref.value, c, request.language⟩] := by
  have hdispatch : (dispatch l request.language (l.dependencies request) w.registry).1 =
      [⟨l, ref.value, c, request.language⟩] := by
    rw [hdeps, dispatch_cons_of_free free]
    rfl
  rcases expand_fst l request w with he | he
  · have hleaves := leaves_expand l request w
    rw [he, hdispatch] at hleaves
    simp at hleaves
  · rw [he, hdispatch]
    rfl

end

/-! ### Answers -/

section

variable (b : Branch) (fetched : Fetched) (w : Workspace)

/-- Whether the text of an answer is loaded: one that leads to another identifier
is only if that is free. -/
def Branch.Admits (r : Registry) : Prop :=
  b.resolved fetched = b.identifier ∨ r.mayLoad (b.resolved fetched) = true

theorem settle_fst (r : Registry) :
    (b.settle (b.resolved fetched) r).1 = true ↔ b.Admits fetched r := by
  unfold Branch.settle Branch.Admits
  split <;> simp [*]

theorem status?_settle (resolved id : String) (r : Registry) :
    (b.settle resolved r).2.status? id =
      if id = b.identifier ∨ id = resolved then some .success else r.status? id := by
  unfold Branch.settle
  split
  · next h => simp [h, eq_comm (a := id)]
  · by_cases h : resolved = id <;> by_cases h' : b.identifier = id <;>
      simp [h, h', eq_comm (a := id), Registry.status?_beginLoad]

/-- The workspace once an answer has been taken note of. -/
def Branch.noted (b : Branch) (fetched : Fetched) (w : Workspace) : Workspace :=
  { w with registry := (b.settle (b.resolved fetched) w.registry).2 }

theorem status?_noted (id : String) : (b.noted fetched w).registry.status? id =
    if id = b.identifier ∨ id = b.resolved fetched then some .success
    else w.registry.status? id :=
  status?_settle b _ id w.registry

variable {b fetched w}

theorem receive_of_admits (h : b.Admits fetched w.registry) : b.receive (.ok fetched) w =
    expand b.loader ⟨fetched.text, b.resolved fetched, b.language, true⟩ (b.noted fetched w) := by
  simp [Branch.receive, (settle_fst b fetched w.registry).2 h, Branch.noted]

theorem receive_of_not_admits (h : ¬ b.Admits fetched w.registry) :
    b.receive (.ok fetched) w = (.settled (.ok ()), b.noted fetched w) := by
  have hf : (b.settle (b.resolved fetched) w.registry).1 = false := by
    rw [← Bool.not_eq_true, settle_fst]
    exact h
  simp [Branch.receive, hf, Branch.noted]

/-- An answer that brings a text is taken note of, and then the text is expanded or
dropped. -/
theorem receive_cases {P : Task × Workspace → Prop}
    (admitted : ∀ l request, P (expand l request (b.noted fetched w)))
    (dropped : P (.settled (.ok ()), b.noted fetched w)) : P (b.receive (.ok fetched) w) := by
  by_cases h : b.Admits fetched w.registry
  · rw [receive_of_admits h]
    exact admitted _ _
  · rw [receive_of_not_admits h]
    exact dropped

end

end ModuleGraph
