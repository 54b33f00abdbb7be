/-
# What is recorded of files

A file is recorded when its text is expanded: its tree, the references of the tree, and
for each reference the candidate identifier that it has from where the file stands.
Nothing else changes what is recorded (`Step.fileInfo?_eq`), so each file of a registry
agrees with its tree, and was recorded at a moment of the run or before it.

The loads of what a text refers to begin as the file is recorded, or have begun before.
So whatever a recorded file refers to has a status, and once nothing is under way it is
loaded or has failed; where a load by itself went well, what the files that it recorded
refer to is loaded.

Key definitions: `FileInfo.Agrees`, `Moment.recorded?`.
Key theorems: `fileInfo?_expand`, `Step.fileInfo?_eq`, `Run.fileInfo?_cases`,
`Run.documented`, `Documented.settled`, `Run.success_of_recorded`, `recorded_settled`.
-/
import ModuleGraph.Proofs.Moments
import ModuleGraph.Proofs.Registration
import ModuleGraph.Session

namespace ModuleGraph

/-- What is recorded of a file agrees with its tree and with where the file stands. -/
structure FileInfo.Agrees (l : Loader) (identifier : String) (info : FileInfo) : Prop where
  imports : info.imports = references info.tree
  filepaths : info.filepaths = info.imports.map fun ref => (l.candidate identifier ref).identifier

/-! ### Expansions -/

/-- A dispatch changes statuses only. -/
theorem files_dispatch (l : Loader) (language : Language) :
    ∀ (pairs : List (Reference × Candidate)) (r : Registry),
      (dispatch l language pairs r).2.files = r.files ∧
        (dispatch l language pairs r).2.recorded = r.recorded
  | [], _ => ⟨rfl, rfl⟩
  | p :: rest, r => by
    cases hf : r.mayLoad p.2.identifier with
    | false =>
      rw [dispatch_cons_of_blocked hf]
      exact files_dispatch l language rest r
    | true =>
      rw [dispatch_cons_of_free hf]
      simpa using files_dispatch l language rest (r.beginLoad p.2.identifier)

/-- What an expansion records of its text. -/
def Loader.info? (l : Loader) (request : LoadRequest) (r : Registry) : Option FileInfo :=
  (l.parse request.text).map fun tree =>
    ⟨tree, r.recorded, references tree, l.targets request⟩

theorem fileInfo?_expand (l : Loader) (request : LoadRequest) (w : Workspace) (id : String) :
    (expand l request w).2.registry.fileInfo? id =
      if request.identifier = id then (l.info? request w.registry).or (w.registry.fileInfo? id)
      else w.registry.fileInfo? id := by
  have hr := (declare_frame l request w).1
  cases hp : l.parse request.text with
  | none =>
    have hw : (expand l request w).2.registry = w.registry := by
      unfold expand
      split
      · rfl
      · simp [hp, hr]
    simp [hw, Loader.info?, hp]
  | some tree =>
    have ht : request.text.isEmpty = false := by
      by_contra he
      rw [Bool.not_eq_false] at he
      simp [Loader.parse, Syntax.treeBy, he] at hp
    have hd : l.dependencies request = l.resolve request.identifier tree := by
      simp [Loader.dependencies, hp]
    obtain ⟨hfiles, hcount⟩ := files_dispatch l request.language
      (l.resolve request.identifier tree) w.registry
    simp only [expand, ht, hp, recordAndDispatch, dispatch_record, hr, Registry.fileInfo?_record,
      Loader.info?, Loader.targets, hd, hcount, Option.map_some, Option.some_or,
      Bool.false_eq_true, if_false]
    simp only [Registry.fileInfo?, hfiles]

/-- What is recorded agrees with its tree, where modules can be fetched. -/
theorem Loader.agrees_of_info? {l : Loader} {request : LoadRequest} {r : Registry}
    {info : FileInfo} (fetches : l.fetches = true) (h : l.info? request r = some info) :
    info.Agrees l request.identifier := by
  obtain ⟨tree, hp, rfl⟩ := Option.map_eq_some_iff.1 h
  refine ⟨rfl, ?_⟩
  simp [Loader.targets, Loader.dependencies, hp, Loader.resolve, fetches, Function.comp_def]

/-- The file that is recorded at a moment, under its identifier. -/
def Moment.recorded? (m : Moment) : Option (String × FileInfo) :=
  m.expands?.bind fun p => (p.1.info? p.2 m.workspace.registry).map (p.2.identifier, ·)

theorem Moment.recorded?_eq_some {m : Moment} {id : String} {info : FileInfo} :
    m.recorded? = some (id, info) ↔ ∃ l request, m.expands? = some (l, request) ∧
      l.info? request m.workspace.registry = some info ∧ request.identifier = id := by
  simp [recorded?, Option.bind_eq_some_iff]

/-- A recorded file refers to what its text refers to. -/
theorem Loader.filepaths_of_info? {l : Loader} {request : LoadRequest} {r : Registry}
    {info : FileInfo} (h : l.info? request r = some info) :
    info.filepaths = l.targets request := by
  obtain ⟨tree, -, rfl⟩ := Option.map_eq_some_iff.1 h
  rfl

/-! ### Steps -/

variable {answers : Answers} {e : Event} {t t' : Task} {w w' : Workspace} {ms : List Moment}
  {id : String} {info : FileInfo}

theorem Event.files_note (e : Event) (w : Workspace) :
    (e.note w).registry.files = w.registry.files ∧
      (e.note w).registry.recorded = w.registry.recorded := by
  cases e with
  | load l request => exact ⟨rfl, rfl⟩
  | start b a => exact ⟨rfl, rfl⟩
  | receive b a =>
    cases a with
    | error cause => exact ⟨rfl, rfl⟩
    | ok fetched =>
      simp only [note, Branch.noted, Branch.settle]
      split
      · exact ⟨rfl, rfl⟩
      · exact ⟨Registry.files_beginLoad .., Registry.recorded_beginLoad ..⟩

/-- What is recorded under an identifier changes only if its file is recorded. -/
theorem Step.fileInfo?_eq (h : Step answers e t w t' w') (id : String) :
    w'.registry.fileInfo? id = match (⟨e, t, w⟩ : Moment).recorded? with
      | some (other, info) => if other = id then some info else w.registry.fileInfo? id
      | none => w.registry.fileInfo? id := by
  obtain ⟨hfiles, hcount⟩ := e.files_note w
  have hsame : (e.note w).registry.fileInfo? id = w.registry.fileInfo? id := by
    simp only [Registry.fileInfo?, hfiles]
  have hw := h.workspace_eq
  unfold Moment.recorded?
  cases he : (⟨e, t, w⟩ : Moment).expands? with
  | none =>
    rw [he] at hw
    simpa [hw] using hsame
  | some p =>
    obtain ⟨l, request⟩ := p
    rw [he] at hw
    have hinfo : l.info? request (e.note w).registry = l.info? request w.registry := by
      simp only [Loader.info?, hcount]
    rw [hw, fileInfo?_expand, hsame, hinfo]
    cases hi : l.info? request w.registry <;> simp [hi]

/-- What is recorded after a run was recorded in it, or before. -/
theorem Run.fileInfo?_cases (h : Run answers ms t w t' w') :
    w'.registry.fileInfo? id = some info →
      (∃ m ∈ ms, m.recorded? = some (id, info)) ∨ w.registry.fileInfo? id = some info := by
  induction h with
  | refl => exact .inr
  | @head e ms t t₁ t' w w₁ w' hs _ ih =>
    intro hf
    rcases ih hf with ⟨m, hm, hr⟩ | hf
    · exact .inl ⟨m, List.mem_cons_of_mem _ hm, hr⟩
    · rw [hs.fileInfo?_eq] at hf
      cases hr : (⟨e, t, w⟩ : Moment).recorded? with
      | none => exact .inr (by simpa [hr] using hf)
      | some p =>
        obtain ⟨other, info'⟩ := p
        by_cases ho : other = id
        · obtain rfl : info' = info := by simpa [hr, ho] using hf
          exact .inl ⟨_, List.mem_cons_self, ho ▸ hr⟩
        · exact .inr (by simpa [hr, ho] using hf)

/-- What is recorded at a moment refers to what is loading or loaded after it. -/
theorem Step.blocked_of_recorded {path : String} (h : Step answers e t w t' w')
    (hr : (⟨e, t, w⟩ : Moment).recorded? = some (id, info)) (hp : path ∈ info.filepaths) :
    w'.registry.mayLoad path = false := by
  obtain ⟨l, request, he, hi, -⟩ := Moment.recorded?_eq_some.1 hr
  rw [Loader.filepaths_of_info? hi] at hp
  exact h.blocked_of_targets he hp

/-! ### Runs -/

/-- The loader of a text that is expanded is that of a leaf. -/
theorem Step.loader?_of_expands {l : Loader} {request : LoadRequest}
    (h : Step answers e t w t' w') (he : (⟨e, t, w⟩ : Moment).expands? = some (l, request)) :
    ∃ leaf ∈ t.leaves, leaf.loader? = some l := by
  obtain ⟨before, leaf, after, new, hm, ht, -⟩ := h.splice
  refine ⟨leaf, by simp [ht], ?_⟩
  cases hm with
  | load l' request' =>
    cases he
    rfl
  | start b delivery now _ => simp [Moment.expands?, Moment.admitted?] at he
  | receive b answer due =>
    cases answer with
    | error cause => simp [Moment.expands?, Moment.admitted?] at he
    | ok fetched =>
      obtain ⟨p, hp, hl⟩ := Option.map_eq_some_iff.1 he
      obtain ⟨hevent, -⟩ := Moment.admitted?_eq_some.1 hp
      cases hevent
      cases hl
      rfl

/-- What is known of the recorded files: each agrees with its tree, and what it refers to
has a status. -/
structure Documented (l : Loader) (r : Registry) : Prop where
  agrees : ∀ id info, r.fileInfo? id = some info → info.Agrees l id
  seen : ∀ id info, r.fileInfo? id = some info → ∀ path ∈ info.filepaths, r.status? path ≠ none

theorem Documented.of_empty {l : Loader} {r : Registry} (h : ∀ id, r.fileInfo? id = none) :
    Documented l r := by
  refine ⟨fun id info hf => ?_, fun id info hf => ?_⟩ <;> simp [h] at hf

/-- What a recorded file refers to is loaded or has failed, where nothing is loading. -/
theorem Documented.settled {l : Loader} {r : Registry} {path : String} (h : Documented l r)
    (idle : ∀ id, r.status? id ≠ some .loading) (hf : r.fileInfo? id = some info)
    (hp : path ∈ info.filepaths) :
    r.status? path = some .success ∨ r.status? path = some .error := by
  cases hs : r.status? path with
  | none => exact absurd hs (h.seen id info hf path hp)
  | some status =>
    cases status with
    | loading => exact absurd hs (idle path)
    | success => exact .inl rfl
    | error => exact .inr rfl

theorem Step.documented {l : Loader} (fetches : l.fetches = true) (h : Step answers e t w t' w')
    (hl : ∀ leaf ∈ t.leaves, ∀ l', leaf.loader? = some l' → l' = l)
    (hd : Documented l w.registry) : Documented l w'.registry := by
  have hcases : ∀ {id info}, w'.registry.fileInfo? id = some info →
      (⟨e, t, w⟩ : Moment).recorded? = some (id, info) ∨ w.registry.fileInfo? id = some info := by
    intro id info hf
    rcases (Run.head h (.refl t' w')).fileInfo?_cases hf with ⟨m, hm, hr⟩ | hf
    · obtain rfl := List.mem_singleton.1 hm
      exact .inl hr
    · exact .inr hf
  refine ⟨fun id info hf => ?_, fun id info hf path hp => ?_⟩
  · rcases hcases hf with hr | hf
    · obtain ⟨l', request, he, hi, rfl⟩ := Moment.recorded?_eq_some.1 hr
      obtain ⟨leaf, hleaf, hl'⟩ := h.loader?_of_expands he
      obtain rfl := hl leaf hleaf l' hl'
      exact Loader.agrees_of_info? fetches hi
    · exact hd.agrees id info hf
  · rcases hcases hf with hr | hf
    · have hb := h.blocked_of_recorded hr hp
      rw [Registry.mayLoad_eq_false_iff] at hb
      rcases hb with hb | hb <;> simp [hb]
    · exact h.status?_ne_none (hd.seen id info hf path hp)

/-- Loads of one loader keep what is recorded documented. -/
theorem Run.documented {l : Loader} {requests : List LoadRequest} (fetches : l.fetches = true)
    (h : Run answers ms (.loads (requests.map (l, ·))) w t' w') (hd : Documented l w.registry) :
    Documented l w'.registry := by
  refine (h.invariant (P := fun t w => (∀ leaf ∈ t.leaves, ∀ l', leaf.loader? = some l' → l' = l) ∧
    Documented l w.registry) (fun hs hp => ⟨?_, hs.documented fetches hp.1 hp.2⟩) ⟨?_, hd⟩).2
  · exact hs.forall_leaves (fun hm hleaf x hx l' hl' => hleaf l' (hm.loader?_eq hx hl')) hp.1
  · rw [Task.leaves_loads, List.map_map]
    intro leaf hleaf l' hl'
    obtain ⟨request, -, rfl⟩ := List.mem_map.1 hleaf
    exact (Option.some.inj hl').symm

/-- What a file refers to that is recorded in a run is loaded in the end, when all goes
well. -/
theorem Run.success_of_recorded {m : Moment} {path : String} (h : Run answers ms t w t' w')
    (ho : Owned t.inFlight w.registry) (ok : t'.outcome? = some (.ok ())) (hm : m ∈ ms)
    (hr : m.recorded? = some (id, info)) (hp : path ∈ info.filepaths) :
    w'.registry.status? path = some .success := by
  obtain ⟨l, request, he, hi, -⟩ := Moment.recorded?_eq_some.1 hr
  rw [Loader.filepaths_of_info? hi] at hp
  exact h.success_of_expands ho ok hm he hp

/-- **What is recorded is settled.** However the loads of one loader overlap, in every state
in which nothing is under way each recorded file agrees with its tree, and all that it
refers to is loaded or has failed. If a load by itself then goes well, all that the files
refer to which it recorded is loaded. -/
theorem recorded_settled {l : Loader} {requests : List LoadRequest} (fetches : l.fetches = true)
    (fresh : ∀ id, w.registry.fileInfo? id = none ∧ w.registry.status? id = none)
    (h : Run answers ms (.loads (requests.map (l, ·))) w t w') (idle : t.inFlight = []) :
    (∀ id info, w'.registry.fileInfo? id = some info → info.Agrees l id ∧
      ∀ path ∈ info.filepaths, w'.registry.status? path = some .success ∨
        w'.registry.status? path = some .error) ∧
      ∀ request ms₂ t₂ w₂, Run answers ms₂ (.loads [(l, request)]) w' t₂ w₂ →
        t₂.outcome? = some (.ok ()) → ∀ m ∈ ms₂, ∀ id info, m.recorded? = some (id, info) →
          ∀ path ∈ info.filepaths, w₂.registry.status? path = some .success := by
  have hd := h.documented fetches (.of_empty fun id => (fresh id).1)
  have hidle : ∀ id, w'.registry.status? id ≠ some .loading := fun id =>
    h.ne_loading (owned_loads fun id => by simp [(fresh id).2]) idle
  refine ⟨fun id info hf => ⟨hd.agrees id info hf, fun path hp => hd.settled hidle hf hp⟩, ?_⟩
  intro request ms₂ t₂ w₂ h₂ ok m hm id info hr path hp
  exact h₂.success_of_recorded (owned_loads hidle) ok hm hr hp

/-! ### Loads one after the other -/

def topRequest (text : String) (language : Language) : LoadRequest := ⟨text, "/a", language, false⟩

/-- The load of a text at `/a`, and no other. -/
abbrev loadAlone (text : String) (language : Language) : Task :=
  .loads [({ fetches := true }, topRequest text language)]

/-- What it comes to in the schedule. -/
def scheduled (modules : Table String CatalogModule) (text : String) (language : Language)
    (w : Workspace) : Task × Workspace :=
  (settle (ModuleSource.catalog modules).fetcher 9 0 (loadAlone text language) w).2

theorem exists_run_scheduled (modules : Table String CatalogModule) (text : String)
    (language : Language) (w : Workspace) :
    ∃ ms, Run (ModuleSource.catalog modules).fetcher.answers ms (loadAlone text language) w
      (scheduled modules text language w).1 (scheduled modules text language w).2 :=
  leads_settle _ _ _ _ _

def brokenBeside : Table String CatalogModule :=
  [("/x", { text := "", failure := some (.host "down") })]

def mendedBeside : Table String CatalogModule := [("/x", { text := "1" })]

/-- A load whose import fails. -/
def failedBeside : Task × Workspace := scheduled brokenBeside importBeside .typescript {}

/-- The next load of the same text, with the import there. -/
def retriedBeside : Task × Workspace :=
  scheduled mendedBeside importBeside .typescript failedBeside.2

theorem failedBeside_spec : failedBeside.1.inFlight = [] ∧
    failedBeside.2.registry.status? "/x" = some .error ∧
    (failedBeside.2.registry.fileInfo? "/a").map (fun info => (info.stamp, info.filepaths)) =
      some (0, ["/x"]) := by
  decide +kernel

theorem retriedBeside_spec : retriedBeside.1.outcome? = some (.ok ()) ∧
    (retriedBeside.2.registry.fileInfo? "/a").map (fun info => (info.stamp, info.filepaths)) =
      some (1, ["/x"]) := by
  decide +kernel

/-- What the file refers to has failed after the first load, and is loaded after the
second. -/
theorem recorded_importBeside : ∃ ms t w ms₂ t₂ w₂ info,
    Run (fun _ _ => True) ms (loadAlone importBeside .typescript) {} t w ∧ t.inFlight = [] ∧
    w.registry.fileInfo? "/a" = some info ∧ info.Agrees { fetches := true } "/a" ∧
    info.filepaths = ["/x"] ∧ w.registry.status? "/x" = some .error ∧
    Run (fun _ _ => True) ms₂ (loadAlone importBeside .typescript) w t₂ w₂ ∧
    t₂.outcome? = some (.ok ()) ∧ w₂.registry.status? "/x" = some .success := by
  obtain ⟨ms, hrun⟩ := exists_run_scheduled brokenBeside importBeside .typescript {}
  obtain ⟨ms₂, hrun₂⟩ := exists_run_scheduled mendedBeside importBeside .typescript failedBeside.2
  have h : Run (fun _ _ => True) ms
      (.loads ([topRequest importBeside .typescript].map (({ fetches := true } : Loader), ·))) {}
      failedBeside.1 failedBeside.2 := hrun.mono fun _ _ _ => trivial
  have h₂ : Run (fun _ _ => True) ms₂ _ failedBeside.2 retriedBeside.1 retriedBeside.2 :=
    hrun₂.mono fun _ _ _ => trivial
  obtain ⟨idle, herror, hfile⟩ := failedBeside_spec
  obtain ⟨ok, hfile₂⟩ := retriedBeside_spec
  obtain ⟨info, hinfo, hpaths⟩ := Option.map_eq_some_iff.1 hfile
  obtain ⟨info₂, hinfo₂, hpaths₂⟩ := Option.map_eq_some_iff.1 hfile₂
  simp only [Prod.mk.injEq] at hpaths hpaths₂
  -- the stamps tell the records apart: the second load has made its own
  obtain ⟨m, hm, hr⟩ : ∃ m ∈ ms₂, m.recorded? = some ("/a", info₂) := by
    refine (h₂.fileInfo?_cases hinfo₂).resolve_right fun hold => ?_
    rw [hinfo] at hold
    cases hold
    omega
  obtain ⟨hrecorded, halone⟩ := recorded_settled rfl (fun _ => ⟨rfl, rfl⟩) h idle
  exact ⟨ms, _, _, ms₂, _, _, info, h, idle, hinfo, (hrecorded "/a" info hinfo).1, hpaths.2,
    herror, h₂, ok, halone _ ms₂ _ _ h₂ ok m hm "/a" info₂ hr "/x" (by simp [hpaths₂.2])⟩

end ModuleGraph
