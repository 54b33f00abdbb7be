/-
# What a text dispatches

A dispatch goes through the references of a text in their order and marks what it
begins as it goes. What comes of this can be said without the marks: of the candidates
of all references, each taken where it occurs first, those begin that were free
beforehand, and the branch for each is that of the reference where it occurs first
(`dispatch_eq`).

All of this is one step of a load. Every identifier that begins is marked before
anything is fetched for it, and no other status changes (`dispatches_first`).

Key definitions: `Loader.begun`, `Loader.firstBranch?`.
Key theorems: `eraseDups_filter`, `dispatch_eq`, `dispatches_first`.
-/
import ModuleGraph.Proofs.FewModules

namespace ModuleGraph

/-! ### First occurrences -/

/-- What is left of a list of first occurrences are the first occurrences of what is left. -/
theorem eraseDups_filter (f : String → Bool) : ∀ xs : List String,
    (xs.filter f).eraseDups = xs.eraseDups.filter f
  | [] => rfl
  | x :: xs => by
    have hlt : (xs.filter fun y => !y == x).length < xs.length + 1 :=
      Nat.lt_succ_of_le (List.length_filter_le _ _)
    have ih := eraseDups_filter f (xs.filter fun y => !y == x)
    rw [List.eraseDups_cons]
    cases hf : f x with
    | true =>
      rw [List.filter_cons_of_pos hf, List.filter_cons_of_pos hf, List.eraseDups_cons, ← ih,
        List.filter_comm]
    | false =>
      have hrest : ((xs.filter fun y => !y == x).filter f) = xs.filter f := by
        rw [List.filter_filter]
        refine List.filter_congr fun y _ => ?_
        by_cases hy : y = x <;> simp [hy, hf]
      rw [List.filter_cons_of_neg (by simp [hf]), List.filter_cons_of_neg (by simp [hf]), ← ih,
        hrest]
termination_by xs => xs.length

/-- The first of some references whose candidate has an identifier. -/
def firstFor (pairs : List (Reference × Candidate)) (id : String) :
    Option (Reference × Candidate) :=
  pairs.find? fun p => p.2.identifier = id

theorem firstFor_cons_self (p : Reference × Candidate) (rest : List (Reference × Candidate)) :
    firstFor (p :: rest) p.2.identifier = some p := by
  simp [firstFor]

theorem firstFor_cons_of_ne {p : Reference × Candidate} {id : String}
    (rest : List (Reference × Candidate)) (h : id ≠ p.2.identifier) :
    firstFor (p :: rest) id = firstFor rest id := by
  simp [firstFor, Ne.symm h]

/-! ### Dispatch -/

section

variable {l : Loader} {language : Language}

/-- **What a dispatch dispatches**: of the identifiers, each where it occurs first, those
that are free, with the references by which they occur first. -/
theorem dispatch_eq : ∀ (pairs : List (Reference × Candidate)) (r : Registry),
    (dispatch l language pairs r).1 =
      (((pairs.map fun p => p.2.identifier).eraseDups.filter r.mayLoad).filterMap
        (firstFor pairs)).map fun p => ⟨l, p.1.value, p.2, language⟩
  | [], _ => rfl
  | p :: rest, r => by
    set ids := (rest.map fun p => p.2.identifier).eraseDups with hids
    have hcons : ((p :: rest).map fun p => p.2.identifier).eraseDups =
        p.2.identifier :: ids.filter fun id => !id == p.2.identifier := by
      rw [List.map_cons, List.eraseDups_cons, eraseDups_filter]
    -- what is free after the first reference is free before it and not its identifier
    have hfirst : ∀ free : String → Bool, (∀ id, free id = true → id ≠ p.2.identifier) →
        (ids.filter free).filterMap (firstFor (p :: rest)) =
          (ids.filter free).filterMap (firstFor rest) := by
      intro free hne
      refine List.filterMap_congr fun id hid => firstFor_cons_of_ne rest ?_
      exact hne id (List.mem_filter.1 hid).2
    rw [hcons]
    cases hf : r.mayLoad p.2.identifier with
    | false =>
      have hrest : (ids.filter fun id => !id == p.2.identifier).filter r.mayLoad =
          ids.filter r.mayLoad := by
        rw [List.filter_filter]
        refine List.filter_congr fun id _ => ?_
        by_cases hid : id = p.2.identifier <;> simp [hid, hf]
      rw [dispatch_cons_of_blocked hf, dispatch_eq rest r, List.filter_cons_of_neg (by simp [hf]),
        hrest, hfirst]
      rintro id hid rfl
      rw [hf] at hid
      cases hid
    | true =>
      have hrest : (ids.filter fun id => !id == p.2.identifier).filter r.mayLoad =
          ids.filter (r.beginLoad p.2.identifier).mayLoad := by
        rw [List.filter_filter]
        refine List.filter_congr fun id _ => ?_
        rw [Bool.eq_iff_iff, Registry.mayLoad_beginLoad]
        simp [and_comm, eq_comm (a := id)]
      rw [dispatch_cons_of_free hf, dispatch_eq rest _, List.filter_cons_of_pos hf, hrest,
        List.filterMap_cons, firstFor_cons_self, hfirst]
      · rfl
      · rintro id hid rfl
        exact ((Registry.mayLoad_beginLoad ..).1 hid).1 rfl

end

/-! ### Texts -/

section

variable (l : Loader) (request : LoadRequest)

/-- The identifiers that a text begins to load: of the candidates of its references those
that are absent or have failed, each once, where it occurs first. -/
def Loader.begun (r : Registry) : List String :=
  ((l.refers request.text).map fun ref =>
    (l.candidate request.identifier ref).identifier).eraseDups.filter fun id =>
      r.status? id = none ∨ r.status? id = some .error

/-- The branch for the first reference of a text whose candidate has an identifier. -/
def Loader.firstBranch? (id : String) : Option Branch :=
  ((l.refers request.text).find? fun ref =>
    (l.candidate request.identifier ref).identifier = id).map
      (l.branch request.identifier request.language)

theorem Loader.firstFor_dependencies (id : String) :
    (firstFor (l.dependencies request) id).map
        (fun p => (⟨l, p.1.value, p.2, request.language⟩ : Branch)) =
      l.firstBranch? request id := by
  rw [dependencies_eq, firstFor, List.find?_map, Option.map_map]
  rfl

theorem branches_expand (w : Workspace) :
    (dispatch l request.language (l.dependencies request) w.registry).1 =
      (l.begun request w.registry).filterMap (l.firstBranch? request) := by
  have hfree : ∀ id, w.registry.mayLoad id =
      decide (w.registry.status? id = none ∨ w.registry.status? id = some .error) := fun id => by
    rw [Bool.eq_iff_iff, Registry.mayLoad_eq_true_iff, decide_eq_true_iff]
  have hids : (l.dependencies request).map (fun p => p.2.identifier) =
      (l.refers request.text).map fun ref => (l.candidate request.identifier ref).identifier := by
    rw [dependencies_eq, List.map_map]
    rfl
  rw [dispatch_eq, hids, List.map_filterMap, Loader.begun, funext hfree]
  exact congrArg (List.filterMap · _) (funext (l.firstFor_dependencies request))

/-- A branch that begins is for the identifier that begins. -/
theorem Loader.identifier_firstBranch? {r : Registry} {id : String}
    (h : id ∈ l.begun request r) : (l.firstBranch? request id).map Branch.identifier = some id := by
  obtain ⟨ref, href, hid⟩ := List.mem_map.1 (List.mem_eraseDups.1 (List.mem_filter.1 h).1)
  have hsome : ((l.refers request.text).find? fun ref =>
      (l.candidate request.identifier ref).identifier = id).isSome := by
    rw [List.find?_isSome]
    exact ⟨ref, href, by simpa using hid⟩
  obtain ⟨first, hfirst⟩ := Option.isSome_iff_exists.1 hsome
  have hcandidate : (l.candidate request.identifier first).identifier = id := by
    simpa using List.find?_some hfirst
  rw [Loader.firstBranch?, hfirst]
  exact congrArg some hcandidate

theorem dispatched_eq_begun (w : Workspace) :
    dispatched l request.language (l.dependencies request) w.registry =
      l.begun request w.registry := by
  rw [dispatched, branches_expand, List.map_filterMap]
  calc (l.begun request w.registry).filterMap
        (fun id => (l.firstBranch? request id).map Branch.identifier)
      = (l.begun request w.registry).filterMap some :=
        List.filterMap_congr fun _ hid => l.identifier_firstBranch? request hid
    _ = l.begun request w.registry := List.filterMap_some

end

/-- Where only branches wait, the next step begins the fetch of one. -/
theorem Step.start_of_queued {answers : Answers} {e : Event} {t t' : Task} {w w' : Workspace}
    {branches : List Branch} (h : Step answers e t w t' w')
    (ht : t.leaves = branches.map .queued) : ∃ b ∈ branches, ∃ a, e = .start b a := by
  obtain ⟨before, leaf, after, new, hm, hleaves, -⟩ := h.splice
  have hleaf : leaf ∈ branches.map Task.queued := by
    rw [← ht, hleaves]
    exact List.mem_append_right _ List.mem_cons_self
  obtain ⟨b, hb, rfl⟩ := List.mem_map.1 hleaf
  cases hm with
  | start _ delivery now _ _ => exact ⟨b, hb, delivery.answer, rfl⟩

/-- **What a text dispatches.** Whatever the registry says, the branches of a text are for
the distinct candidates of its references that are absent or have failed, in the order in
which they occur first, each for the reference by which it does. In the same step all
these candidates are marked as loading, and no status but theirs changes; nothing has been
fetched then, and what the load does next is to begin the fetch of one of its branches. -/
theorem dispatches_first (answers : Answers) (l : Loader) (request : LoadRequest) (w : Workspace) :
    (expand l request w).1.leaves =
        ((l.begun request w.registry).filterMap (l.firstBranch? request)).map .queued ∧
      (expand l request w).1.inFlight = l.begun request w.registry ∧
      (l.begun request w.registry).Nodup ∧
      (∀ id, (expand l request w).2.registry.status? id =
        if id ∈ l.begun request w.registry then some .loading else w.registry.status? id) ∧
      (expand l request w).2.fetches = w.fetches ∧
      ∀ e t' w', Step answers e (expand l request w).1 (expand l request w).2 t' w' →
        ∃ b ∈ (l.begun request w.registry).filterMap (l.firstBranch? request),
          ∃ a, e = .start b a := by
  have hleaves : (expand l request w).1.leaves =
      ((l.begun request w.registry).filterMap (l.firstBranch? request)).map .queued := by
    rw [leaves_expand, branches_expand]
  have hnodup : (dispatched l request.language (l.dependencies request) w.registry).Nodup :=
    nodup_dispatched _ _
  rw [dispatched_eq_begun] at hnodup
  refine ⟨hleaves, ?_, hnodup, fun id => ?_, fetches_expand l request w, fun e t' w' hs => ?_⟩
  · rw [Task.inFlight, identifiers_expand, dispatched_eq_begun]
  · rw [status?_expand, dispatched_eq_begun]
  · exact hs.start_of_queued hleaves

/-- A module that is loaded is passed over, and of two spellings the first is dispatched. -/
example : (Loader.begun { fetches := true }
      ⟨"import'./y';import'./x';import'././x'", "/a", .typescript, false⟩
      (({} : Registry).setStatus "/y" .success)).filterMap
    (fun id => (Loader.firstBranch? { fetches := true }
      ⟨"import'./y';import'./x';import'././x'", "/a", .typescript, false⟩ id).map
        fun b => (b.specifier, b.identifier)) = [("./x", "/x")] := by
  decide +kernel

end ModuleGraph
