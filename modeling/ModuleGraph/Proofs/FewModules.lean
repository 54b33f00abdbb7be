/-
# Loads from few modules come to an end

A source serves few modules if it ever answers with finitely many texts, for finitely
many paths; whatever else it is asked for fails. What loads lead to is not few by itself:
a load that has failed may be dispatched again, and an answer may lead to an identifier
that no text refers to. But what is admitted was served, for a path that at most four
candidates of a loader stand for (`Candidate.identifier_mem_spelled`), under one of
finitely many hints. So texts are admitted to finitely many identifiers, to none of them
twice, and loads settle.

A fetch begins for a reference of a text that was expanded, and for each reference at
most once: what a call may still begin to fetch is counted by its leaves
(`Task.unfetched`), and only a text that is admitted in the call adds to it.

Key definitions: `ServesFew`, `Candidate.spelled`, `Task.unfetched`, `started`,
`momentsOf`, `Moment.referred`.
Key theorems: `Fetcher.servesFew`, `Run.receives_answer`, `Run.admits_served`, `Step.starts_le`,
`Run.call_le`, `Run.exists_isOf_of_branch?`, `settles_of_servesFew`.
-/
import Mathlib.Data.Set.Finite.Lattice
import ModuleGraph.Proofs.FileLoads
import ModuleGraph.Proofs.Position

namespace ModuleGraph

/-! ### Sources of few modules -/

/-- Every request is answered, but only finitely many texts are ever served, each with
its hint, for finitely many paths. -/
structure ServesFew (answers : Answers) : Prop where
  total : ∀ request, ∃ answer, answers request answer
  finite : {served : String × Fetched |
    ∃ specifier, answers ⟨specifier, served.1⟩ (.ok served.2)}.Finite

/-- A fetcher whose answer to a path is fixed serves few modules if it serves finitely
many paths. -/
theorem Fetcher.servesFew {fetcher : Fetcher}
    (fixed : ∀ request request' : FetchRequest, request.relativePath = request'.relativePath →
      (fetcher request).answer = (fetcher request').answer)
    (finite : {path | ∃ specifier fetched,
      (fetcher ⟨specifier, path⟩).answer = .ok fetched}.Finite) :
    ServesFew fetcher.answers where
  total := fetcher.answers_total
  finite := by
    refine (finite.image fun path => (path,
      ((fetcher ⟨"", path⟩).answer.toOption.getD default))).subset ?_
    rintro ⟨path, fetched⟩ ⟨specifier, ha⟩
    have hok : (fetcher ⟨specifier, path⟩).answer = .ok fetched := ha
    have hfixed : (fetcher ⟨"", path⟩).answer = .ok fetched :=
      (fixed ⟨"", path⟩ ⟨specifier, path⟩ rfl).trans hok
    exact ⟨path, ⟨specifier, fetched, hok⟩, by simp [hfixed, Except.toOption]⟩

/-- A catalogue serves few modules. -/
theorem servesFew_catalog (modules : Table String CatalogModule) :
    ServesFew (ModuleSource.catalog modules).fetcher.answers := by
  refine Fetcher.servesFew (fun request request' hpath => ?_) ?_
  · simp only [ModuleSource.fetcher, ModuleSource.fromCatalog, hpath]
  · refine (List.finite_toSet modules.keys).subset ?_
    rintro path ⟨specifier, fetched, ha⟩
    refine (Table.mem_keys_iff path modules).2 ?_
    cases hm : modules.get? path with
    | none => simp [ModuleSource.fetcher, ModuleSource.fromCatalog, hm] at ha
    | some m => rfl

/-! ### What is asked for -/

namespace Candidate

/-- The identifiers of the candidates that a path is asked for: with the root of packages
or without, and with the index suffix or without. -/
def spelled (dependencyRoot path : String) : List String :=
  [path, dependencyRoot ++ path].flatMap fun target => [target, target ++ indexSuffix]

theorem identifier_mem_spelled (base specifier dependencyRoot : String) :
    (of base specifier dependencyRoot).identifier ∈
      spelled dependencyRoot (of base specifier dependencyRoot).relativePath := by
  set target := target base specifier dependencyRoot with htarget
  have hpath : target = withoutRoot dependencyRoot target ∨
      target = dependencyRoot ++ withoutRoot dependencyRoot target := by
    by_cases hroot : dependencyRoot.toList.isPrefixOf target.toList = true
    · right
      obtain ⟨rest, hrest⟩ := List.isPrefixOf_iff_prefix.1 hroot
      rw [withoutRoot, ← hrest, Text.withoutPrefix_append, ← String.toList_inj,
        String.toList_append, String.toList_ofList, hrest]
    · left
      simp [withoutRoot, Text.withoutPrefix, hroot]
  simp only [of, spelled, ← htarget, List.flatMap_cons, List.flatMap_nil, List.append_nil]
  split <;> rcases hpath with h | h <;> simp [← h]

end Candidate

variable {answers : Answers} {e : Event} {t t' : Task} {w w' : Workspace} {ms : List Moment}
  {calls : List (Loader × LoadRequest)} {loaders : List Loader}

/-- A branch for a candidate of one of the loaders. -/
def Branch.Asks (loaders : List Loader) (b : Branch) : Prop :=
  b.loader ∈ loaders ∧ ∃ base ref, b.candidate = b.loader.candidate base ref

/-- A leaf that works for one of the loaders, and is answered as requests are. -/
def Asked (answers : Answers) (loaders : List Loader) : Task → Prop
  | .load l _ => l ∈ loaders
  | .queued b => b.Asks loaders
  | .fetching b a _ => b.Asks loaders ∧ answers b.request a
  | _ => True

theorem asked_of_mem_expand {l : Loader} {request : LoadRequest} {x : Task} (hl : l ∈ loaders)
    (hx : x ∈ (expand l request w).1.leaves) : Asked answers loaders x := by
  rw [leaves_expand] at hx
  obtain ⟨b, hb, rfl⟩ := List.mem_map.1 hx
  obtain ⟨d, hd, rfl⟩ := mem_dispatch hb
  rw [dependencies_eq] at hd
  obtain ⟨ref, -, rfl⟩ := List.mem_map.1 hd
  exact ⟨hl, _, ref, rfl⟩

theorem Asked.move {leaf new x : Task} (h : Move answers e leaf w new w')
    (hleaf : Asked answers loaders leaf) (hx : x ∈ new.leaves) : Asked answers loaders x := by
  cases h with
  | load l request => exact asked_of_mem_expand hleaf hx
  | start b delivery now _ hanswer =>
    obtain rfl : x = .fetching b delivery.answer (now + delivery.delay) :=
      List.mem_singleton.1 hx
    exact And.intro hleaf hanswer
  | receive b answer due =>
    cases answer with
    | error cause => simp [Branch.receive] at hx
    | ok fetched =>
      by_cases ha : b.Admits fetched w.registry
      · rw [receive_of_admits ha] at hx
        exact asked_of_mem_expand hleaf.1.1 hx
      · rw [receive_of_not_admits ha] at hx
        simp at hx

/-- What is received was asked for, and is an answer to that. -/
theorem Run.receives_answer (h : Run answers ms (.loads calls) w t' w') :
    ∀ m ∈ ms, ∀ b a, m.event = .receive b a →
      b.Asks (calls.map Prod.fst) ∧ answers b.request a := by
  intro m hm b a he
  obtain ⟨before, t₁, w₁, hbefore, hstep⟩ := h.step_of_mem hm
  have hasked : ∀ x ∈ m.task.leaves, Asked answers (calls.map Prod.fst) x := by
    refine hbefore.invariant (P := fun t _ => ∀ x ∈ t.leaves, Asked answers (calls.map Prod.fst) x)
      (fun hs => hs.forall_leaves fun hmove hleaf x => Asked.move hmove hleaf) ?_
    rw [Task.leaves_loads]
    intro x hx
    obtain ⟨c, hc, rfl⟩ := List.mem_map.1 hx
    exact List.mem_map_of_mem hc
  rw [he] at hstep
  obtain ⟨⟨due, hleaf⟩, -⟩ := hstep.receive_inv
  exact hasked _ hleaf

/-- What is admitted was asked for, and was served. -/
theorem Run.admits_served (h : Run answers ms (.loads calls) w t' w') :
    ∀ m ∈ ms, ∀ b fetched, m.admitted? = some (b, fetched) →
      b.Asks (calls.map Prod.fst) ∧ answers b.request (.ok fetched) :=
  fun m hm b _ hadm => h.receives_answer m hm b _ (Moment.admitted?_eq_some.1 hadm).1

/-! ### What is fetched -/

namespace Task

/-- The fetches that a leaf may begin, apart from what is fetched for it. -/
def unfetched : Task → Nat
  | load l request => (l.refers request.text).length
  | queued _ => 1
  | _ => 0

theorem sum_unfetched_expand_le (l : Loader) (request : LoadRequest) (w : Workspace) :
    ((expand l request w).1.leaves.map unfetched).sum ≤ (l.refers request.text).length := by
  have hsub : ((dispatch l request.language (l.dependencies request) w.registry).1.map
      fun b => (b.specifier, b.candidate)).Sublist _ := dispatch_sublist ..
  have hle := hsub.length_le
  rw [List.length_map, List.length_map, length_dependencies] at hle
  rw [leaves_expand]
  simpa [Function.comp_def, unfetched] using hle

end Task

/-- How many references the text has that is admitted at a moment. -/
def Moment.referred (m : Moment) : Nat :=
  match m.admitted? with
  | some (b, fetched) => (b.loader.refers fetched.text).length
  | none => 0

namespace Event

/-- The fetches that begin. -/
def starts : Event → List FetchRequest
  | start b _ => [b.request]
  | _ => []

def branch? : Event → Option Branch
  | load .. => none
  | start b _ => some b
  | receive b _ => some b

end Event

/-- The fetches that begin in a run. -/
def started (ms : List Moment) : List FetchRequest := ms.flatMap fun m => m.event.starts

theorem fetches_expand (l : Loader) (request : LoadRequest) (w : Workspace) :
    (expand l request w).2.fetches = w.fetches := by
  have hd := (declare_frame l request w).2
  unfold expand
  split
  · rfl
  · cases l.parse request.text <;> simp [recordAndDispatch, hd]

theorem Step.fetches (h : Step answers e t w t' w') : w'.fetches = w.fetches ++ e.starts := by
  obtain ⟨_, _, _, _, hm, -, -⟩ := h.splice
  cases hm with
  | load l request => simp [fetches_expand, Event.starts]
  | start b delivery now _ => rfl
  | receive b answer due =>
    cases answer with
    | error cause => simp [Branch.receive, Event.starts]
    | ok fetched =>
      refine receive_cases (P := fun r => r.2.fetches = _) (fun l request => ?_) ?_
      · simp [fetches_expand, Branch.noted, Event.starts]
      · simp [Branch.noted, Event.starts]

/-- The fetches that begin are logged, in this order. -/
theorem Run.fetches (h : Run answers ms t w t' w') : w'.fetches = w.fetches ++ started ms := by
  induction h with
  | refl => simp [started]
  | head hs _ ih => simp [ih, hs.fetches, started]

theorem Move.starts_le (h : Move answers e t w t' w') (whole : Task) :
    e.starts.length + (t'.leaves.map Task.unfetched).sum ≤
      t.unfetched + (⟨e, whole, w⟩ : Moment).referred := by
  cases h with
  | load l request =>
    have hle := Task.sum_unfetched_expand_le l request w
    simp only [Event.starts, List.length_nil, Task.unfetched]
    omega
  | start b delivery now _ => simp [Branch.start, Task.leaves, Task.unfetched, Event.starts]
  | receive b answer due =>
    cases answer with
    | error cause => simp [Branch.receive, Event.starts]
    | ok fetched =>
      by_cases ha : b.Admits fetched w.registry
      · have hreferred : (⟨.receive b (.ok fetched), whole, w⟩ : Moment).referred =
            (b.loader.refers fetched.text).length := by
          simp [Moment.referred, Moment.admitted?, ha]
        have hle := Task.sum_unfetched_expand_le b.loader (b.continuation fetched)
          (b.noted fetched w)
        rw [receive_of_admits ha, hreferred]
        simp only [Event.starts, List.length_nil, Nat.zero_add]
        exact hle.trans (Nat.le_add_left _ _)
      · rw [receive_of_not_admits ha]
        simp [Event.starts]

/-! ### What a call fetches -/

/-- Whether a moment belongs to the call at an index: the branch that it is about is
under way there. -/
def Moment.isOf (i : Nat) (m : Moment) : Bool :=
  match m.task.at? [i], m.event.branch? with
  | some call, some b => call.inFlight.contains b.identifier
  | _, _ => false

/-- The moments of a run that belong to the call at an index. -/
def momentsOf (i : Nat) (ms : List Moment) : List Moment := ms.filter (Moment.isOf i)

theorem Moment.isOf_iff {i : Nat} {m : Moment} : m.isOf i = true ↔ ∃ call b,
    m.task.at? [i] = some call ∧ m.event.branch? = some b ∧ b.identifier ∈ call.inFlight := by
  unfold isOf
  cases m.task.at? [i] <;> cases m.event.branch? <;> simp

theorem Event.starts_of_branch?_none (h : e.branch? = none) (whole : Task) :
    e.starts = [] ∧ (⟨e, whole, w⟩ : Moment).referred = 0 := by
  cases e with
  | load l request => exact ⟨rfl, rfl⟩
  | start b a => cases h
  | receive b a => cases h

theorem Step.exists_leaf_of_branch? {b : Branch} (h : Step answers e t w t' w')
    (hb : e.branch? = some b) : ∃ leaf ∈ t.leaves, leaf.branch? = some b := by
  obtain ⟨before, leaf, after, new, hm, ht, -⟩ := h.splice
  refine ⟨leaf, by simp [ht], ?_⟩
  cases hm <;> simp_all [Event.branch?, Task.branch?]

theorem Step.mem_inFlight_of_branch? {b : Branch} (h : Step answers e t w t' w')
    (hb : e.branch? = some b) : b.identifier ∈ t.inFlight := by
  obtain ⟨leaf, hleaf, hb⟩ := h.exists_leaf_of_branch? hb
  exact Task.mem_inFlight hleaf hb

theorem Step.starts_le (h : Step answers e t w t' w') (whole : Task) :
    e.starts.length + (t'.leaves.map Task.unfetched).sum ≤
      (t.leaves.map Task.unfetched).sum + (⟨e, whole, w⟩ : Moment).referred := by
  obtain ⟨before, leaf, after, new, hm, ht, ht'⟩ := h.splice
  have hle := hm.starts_le whole
  simp only [ht, ht', List.map_append, List.map_cons, List.sum_append, List.sum_cons]
  omega

/-- What is under way in one of several tasks is under way in no other. -/
theorem not_mem_inFlight_of_beside {before after : List Task} {call : Task} {id : String}
    (hn : (Task.joined (before ++ t :: after)).inFlight.Nodup) (hid : id ∈ t.inFlight)
    (hc : call ∈ before ++ after) : id ∉ call.inFlight := by
  intro hcall
  rw [Task.inFlight_joined_append, Task.inFlight_joined_cons] at hn
  obtain ⟨-, hrest, hbefore⟩ := List.nodup_append'.1 hn
  obtain ⟨-, -, hafter⟩ := List.nodup_append'.1 hrest
  rcases List.mem_append.1 hc with hc | hc
  · exact hbefore ((Task.mem_inFlight_joined id before).2 ⟨call, hc, hcall⟩)
      (List.mem_append_left _ hid)
  · exact hafter hid ((Task.mem_inFlight_joined id after).2 ⟨call, hc, hcall⟩)

/-- What stands at another place than one of several tasks stands beside it. -/
theorem mem_beside {before after : List Task} {call : Task} {i : Nat}
    (hc : (before ++ t :: after)[i]? = some call) (hi : i ≠ before.length) :
    call ∈ before ++ after := by
  rcases Nat.lt_or_gt_of_ne hi with hlt | hgt
  · rw [List.getElem?_append_left hlt] at hc
    exact List.mem_append_left _ (List.mem_of_getElem? hc)
  · obtain ⟨k, rfl⟩ := Nat.exists_eq_add_of_lt hgt
    have hk : after[k]? = some call := by simpa [List.getElem?_append, Nat.add_assoc] using hc
    exact List.mem_append_right _ (List.mem_of_getElem? hk)

/-- Of the calls that go on together one takes the step, and the fetch that begins is
counted there. The others stay as they are, and the step does not belong to them. -/
theorem Step.call_le {tasks : List Task} {call : Task} {i : Nat}
    (h : Step answers e (.joined tasks) w t' w') (hn : (Task.joined tasks).inFlight.Nodup)
    (hc : tasks[i]? = some call) : ∃ call', t'.at? [i] = some call' ∧
      (started (momentsOf i [⟨e, .joined tasks, w⟩])).length +
          (call'.leaves.map Task.unfetched).sum ≤
        (call.leaves.map Task.unfetched).sum +
          ((momentsOf i [⟨e, .joined tasks, w⟩]).map Moment.referred).sum := by
  generalize ht : Task.joined tasks = t at h
  cases h with
  | move hm => cases hm <;> cases ht
  | @joined before t₀ t₁ _ _ after hs =>
    obtain rfl := Task.joined.inj ht
    set m : Moment := ⟨e, .joined (before ++ t₀ :: after), w⟩ with hm
    by_cases hi : i = before.length
    · obtain rfl : t₀ = call := by simpa [hi] using hc
      have hle := hs.starts_le m.task
      refine ⟨t₁, by simp [hi], ?_⟩
      cases hb : e.branch? with
      | none =>
        obtain ⟨hstarts, hreferred⟩ := Event.starts_of_branch?_none (w := w) hb m.task
        have hof : momentsOf i [m] = [] := by simp [momentsOf, Moment.isOf, hm, hb]
        rw [hstarts, hreferred] at hle
        simpa [hof, started] using hle
      | some b =>
        have hof : m.isOf i = true :=
          Moment.isOf_iff.2 ⟨t₀, b, by simp [hm, hi], hb, hs.mem_inFlight_of_branch? hb⟩
        have hone : momentsOf i [m] = [m] := by simp [momentsOf, hof]
        simpa [hone, started] using hle
    · have hrest : call ∈ before ++ after := mem_beside hc hi
      have hset : before ++ t₁ :: after = (before ++ t₀ :: after).set before.length t₁ := by simp
      have hstays : (Task.joined (before ++ t₁ :: after)).at? [i] = some call := by
        rw [hset, Task.at?_joined_cons, List.getElem?_set_ne (Ne.symm hi), hc]
        simp
      have hnot : m.isOf i = false := by
        rw [Bool.eq_false_iff, Ne, Moment.isOf_iff]
        rintro ⟨call', b, hcall, hb, hid⟩
        obtain rfl : call = call' := by simpa [hm, hc] using hcall
        exact not_mem_inFlight_of_beside hn (hs.mem_inFlight_of_branch? hb) hrest hid
      have hnone : momentsOf i [m] = [] := by simp [momentsOf, hnot]
      exact ⟨call, hstays, by simp [hnone, started]⟩

variable {others : List String}

/-- A fetch that has begun in a call, or may, is for a reference of a text that it was asked
to load or that has been admitted in it. -/
theorem Run.call_le {i : Nat} (h : Run answers ms t w t' w') :
    Owned (t.inFlight ++ others) w.registry → ∀ {call}, t.at? [i] = some call →
      ∃ call', t'.at? [i] = some call' ∧ (started (momentsOf i ms)).length +
          (call'.leaves.map Task.unfetched).sum ≤
        (call.leaves.map Task.unfetched).sum + ((momentsOf i ms).map Moment.referred).sum := by
  induction h with
  | refl => exact fun _ call hc => ⟨call, hc, by simp [momentsOf, started]⟩
  | @head e ms t t₁ t' w w₁ w' hs _ ih =>
    intro ho call hc
    obtain ⟨tasks, rfl⟩ : ∃ tasks, t = .joined tasks := by
      cases t <;> simp_all [Task.at?]
    have hcall : tasks[i]? = some call := by simpa using hc
    obtain ⟨call₁, hc₁, hfirst⟩ := hs.call_le ho.nodup_left hcall
    obtain ⟨call', hc', hrest⟩ := ih (hs.owned_beside ho) hc₁
    refine ⟨call', hc', ?_⟩
    have hsplit : momentsOf i (⟨e, .joined tasks, w⟩ :: ms) =
        momentsOf i [⟨e, .joined tasks, w⟩] ++ momentsOf i ms := by
      rw [momentsOf, ← List.singleton_append, List.filter_append]
      rfl
    have hstarted : ∀ xs ys, started (xs ++ ys) = started xs ++ started ys := fun xs ys => by
      simp [started]
    rw [hsplit, hstarted, List.length_append, List.map_append, List.sum_append]
    omega

/-- What happens to a branch belongs to one of the calls. -/
theorem Run.exists_isOf_of_branch? {m : Moment} {b : Branch}
    (h : Run answers ms (.loads calls) w t' w') (hm : m ∈ ms) (hb : m.event.branch? = some b) :
    ∃ i < calls.length, m.isOf i = true := by
  obtain ⟨before, t₁, w₁, hbefore, hstep⟩ := h.step_of_mem hm
  obtain ⟨tasks, ht, hlen⟩ := hbefore.joined_inv
  have hid := hstep.mem_inFlight_of_branch? hb
  rw [ht] at hid
  obtain ⟨call, hc, hid⟩ := (Task.mem_inFlight_joined _ tasks).1 hid
  obtain ⟨i, hi⟩ := List.mem_iff_getElem?.1 hc
  refine ⟨i, ?_, Moment.isOf_iff.2 ⟨call, b, by simp [ht, hi], hb, hid⟩⟩
  have hlt := (List.getElem?_eq_some_iff.1 hi).1
  simpa [hlen] using hlt

/-- A fetch that begins belongs to one of the calls. -/
theorem Run.exists_isOf (h : Run answers ms (.loads calls) w t' w') :
    ∀ m ∈ ms, m.event.starts ≠ [] → ∃ i < calls.length, m.isOf i = true := by
  intro m hm hstarts
  obtain ⟨b, hb⟩ : ∃ b, m.event.branch? = some b := by
    cases he : m.event <;> simp_all [Event.starts, Event.branch?]
  exact h.exists_isOf_of_branch? hm hb

/-! ### Loads that settle -/

/-- The identifiers to which what is served can be admitted. -/
def reachable (loaders : List Loader) (served : Set (String × Fetched)) : Set String :=
  ⋃ p ∈ served, ⋃ l ∈ loaders, ⋃ id ∈ Candidate.spelled l.dependencyRoot p.1,
    Set.range fun assumed : Bool => p.2.hint.apply id assumed

theorem finite_reachable {served : Set (String × Fetched)} (h : served.Finite) :
    (reachable loaders served).Finite :=
  h.biUnion fun _ _ => (List.finite_toSet loaders).biUnion fun _ _ =>
    (List.finite_toSet _).biUnion fun _ _ => Set.finite_range _

theorem Branch.Asks.resolved_mem {served : Set (String × Fetched)} {b : Branch}
    {fetched : Fetched} (h : b.Asks loaders) (hs : (b.candidate.relativePath, fetched) ∈ served) :
    b.resolved fetched ∈ reachable loaders served := by
  obtain ⟨hl, base, ref, hc⟩ := h
  have hid := Candidate.identifier_mem_spelled base ref.value b.loader.dependencyRoot
  have hof : Candidate.of base ref.value b.loader.dependencyRoot = b.candidate := hc.symm
  rw [hof] at hid
  simp only [reachable, Set.mem_iUnion]
  exact ⟨_, hs, _, hl, _, hid, b.candidate.assumesEntryPoint, rfl⟩

/-- **Loads from few modules settle.** From whatever registry, in whatever order they
overlap and their fetches are answered: no identifier has a text admitted to it twice, and
no call begins more fetches than there are references in its own text and in the texts
that were admitted in it. -/
theorem settles_of_servesFew (few : ServesFew answers) (calls : List (Loader × LoadRequest))
    (w : Workspace) :
    Settles answers (.loads calls) w ∧
      ∀ ms t' w', Run answers ms (.loads calls) w t' w' →
        (admitted ms).Nodup ∧ w'.fetches = w.fetches ++ started ms ∧
          (∀ m ∈ ms, m.event.starts ≠ [] → ∃ i < calls.length, m.isOf i = true) ∧
          ∀ i l request, calls[i]? = some (l, request) →
            (started (momentsOf i ms)).length ≤
              (l.refers request.text).length + ((momentsOf i ms).map Moment.referred).sum := by
  obtain ⟨size, hsize⟩ := exists_forall_le
    (fun p : Loader × Fetched => (p.1.refers p.2.text).length)
    ((calls.map Prod.fst).product (few.finite.toFinset.toList.map Prod.snd))
  have hbound : ∀ ms t' w', Run answers ms (.loads calls) w t' w' →
      ms.length ≤ (Task.loads calls).cost + 2 * size *
        (reachable (calls.map Prod.fst) {served : String × Fetched |
          ∃ specifier, answers ⟨specifier, served.1⟩ (.ok served.2)}).ncard := by
    intro ms t' w' h
    refine h.length_le (finite_reachable few.finite) fun m hm b fetched hadm => ?_
    obtain ⟨hasks, hserved⟩ := h.admits_served m hm b fetched hadm
    refine ⟨hasks.resolved_mem ⟨b.specifier, hserved⟩, ?_⟩
    rw [length_dependencies]
    refine hsize (b.loader, fetched) (List.mem_product.2 ⟨hasks.1, ?_⟩)
    exact List.mem_map.2
      ⟨(b.candidate.relativePath, fetched), by simpa using ⟨b.specifier, hserved⟩, rfl⟩
  refine ⟨.of_bounded few.total ⟨_, hbound⟩, fun ms t' w' h => ?_⟩
  obtain ⟨others, ho⟩ := exists_owned_loads calls w
  refine ⟨h.nodup_admitted ho, h.fetches, h.exists_isOf, fun i l request hi => ?_⟩
  have hcall : (Task.loads calls).at? [i] = some (.load l request) := by simp [Task.loads, hi]
  obtain ⟨call', -, hle⟩ := h.call_le ho hcall
  exact (Nat.le_add_right _ _).trans (by simpa [Task.leaves, Task.unfetched] using hle)

/-- A module that is known under another identifier, and what it refers to from there,
which refers to itself. -/
def catalogBeside : ModuleSource :=
  .catalog [("/x", { text := importBeside, hint := .renamed "/b/c" }),
    ("/b/x", { text := importBeside })]

theorem settles_catalogBeside : ServesFew catalogBeside.fetcher.answers ∧
    Settles catalogBeside.fetcher.answers (loadAtTop importBeside) {} ∧
    ∀ ms t' w', Run catalogBeside.fetcher.answers ms (loadAtTop importBeside) {} t' w' →
      (started (momentsOf 0 ms)).length ≤
        1 + ((momentsOf 0 ms).map Moment.referred).sum := by
  have few : ServesFew catalogBeside.fetcher.answers := servesFew_catalog _
  obtain ⟨settles, runs⟩ := settles_of_servesFew few
    [({ fetches := true }, ⟨importBeside, "/a", .typescript, false⟩)] {}
  refine ⟨few, settles, fun ms t' w' h => ?_⟩
  obtain ⟨-, -, -, hcall⟩ := runs ms t' w' h
  simpa [refers_importBeside] using hcall 0 _ _ rfl

end ModuleGraph
