/-
# The language of a declaration

What has been loaded is told by identifiers alone, and declarations are told apart by
languages as well. A module is fetched in the course of one call and registered for the
language of that call; a call in another language that comes across it later passes over
it, as it does over all that is loaded, and registers nothing (`declared_for_call`).

Key definitions: `registeredIn`, `Brings`.
Key theorems: `Run.extends`, `Run.employed`, `Moment.isOf_unique`, `Run.marked_of_success`,
`Run.brings_iff`, `Run.declaration?_of_registeredIn`, `declared_for_call`.
-/
import ModuleGraph.Proofs.Reload

namespace ModuleGraph

variable {answers : Answers} {e : Event} {t t' : Task} {w w' : Workspace} {ms : List Moment}
  {id : String} {calls : List (Loader × LoadRequest)} {s s₁ : Service} {regs : List Registration}

/-! ### Registrations -/

/-- What is registered in a run, in this order. -/
def registeredIn (ms : List Moment) : List Registration :=
  (ms.filterMap Moment.registers?).map fun p => p.1.registration p.2

theorem registeredIn_cons (m : Moment) (ms : List Moment) :
    registeredIn (m :: ms) = registeredIn [m] ++ registeredIn ms := by
  cases h : m.registers? <;> simp [registeredIn, h]

/-- A step that registers nothing under a name that is taken extends a service by what it
registers. -/
theorem Step.extends (h : Step answers e t w t' w') (host : w.host = .memory s₁)
    (hext : s.Extends s₁ regs)
    (new : ((regs ++ registeredIn [⟨e, t, w⟩]).map Registration.identifier).Nodup) :
    ∃ s₂, w'.host = .memory s₂ ∧ s.Extends s₂ (regs ++ registeredIn [⟨e, t, w⟩]) := by
  rcases h.expands with ⟨l, request, he, hw⟩ | ⟨he, hw⟩
  · refine ⟨l.announce request s₁, by rw [hw, host]; rfl, ?_⟩
    cases hr : request.declaration && !request.text.isEmpty with
    | false =>
      have hnone : registeredIn [⟨e, t, w⟩] = [] := by
        simp [registeredIn, Moment.registers?, he, Option.filter, hr]
      rw [hnone, List.append_nil, announce_eq_id l request hr]
      exact hext
    | true =>
      have hone : registeredIn [⟨e, t, w⟩] = l.registrations request := by
        simp [registeredIn, Moment.registers?, he, Option.filter, hr, Loader.registrations,
          Loader.registration]
      rw [hone] at new ⊢
      refine hext.announce l request fun reg hreg heq => ?_
      rw [List.map_append] at new
      refine (List.nodup_append'.1 new).2.2 (List.mem_map_of_mem hreg) ?_
      simp [Loader.registrations, hr, heq]
  · have hnone : registeredIn [⟨e, t, w⟩] = [] := by simp [registeredIn, Moment.registers?, he]
    exact ⟨s₁, hw.trans host, by simpa [hnone] using hext⟩

/-- A run that registers everything under a name of its own extends a service by what it
registers. -/
theorem Run.extends (h : Run answers ms t w t' w') : ∀ {s₁ regs}, w.host = .memory s₁ →
    s.Extends s₁ regs → ((regs ++ registeredIn ms).map Registration.identifier).Nodup →
      ∃ s', w'.host = .memory s' ∧ s.Extends s' (regs ++ registeredIn ms) := by
  induction h with
  | refl => exact fun host hext _ => ⟨_, host, by simpa [registeredIn] using hext⟩
  | @head e ms t t₁ t' w w₁ w' hs _ ih =>
    intro s₁ regs host hext hnodup
    rw [registeredIn_cons, ← List.append_assoc] at hnodup ⊢
    obtain ⟨s₂, host₂, hext₂⟩ := hs.extends host hext
      (hnodup.sublist ((List.sublist_append_left _ _).map _))
    exact ih host₂ hext₂ hnodup

/-- A text that is admitted is registered, unless it is empty. -/
theorem Moment.registers?_of_admitted {m : Moment} {b : Branch} {fetched : Fetched}
    (ha : m.admitted? = some (b, fetched)) (ht : fetched.text ≠ "") :
    m.registers? = some (b.loader, b.continuation fetched) := by
  obtain ⟨he, -⟩ := admitted?_eq_some.1 ha
  have hexpands : m.expands? = some (b.loader, b.continuation fetched) := by
    simp only [expands?, he, ha, Option.map_some]
  simp [registers?, hexpands, Branch.continuation, ht]

/-! ### Calls -/

/-- What is left of a call works for its loader, in its language. -/
theorem Run.employer?_of_call {i : Nat} {c : Loader × LoadRequest}
    (h : Run answers ms (.loads calls) w t' w') (hi : calls[i]? = some c) :
    ∃ call, t'.at? [i] = some call ∧
      ∀ leaf ∈ call.leaves, leaf.employer? = some (c.1, c.2.language) := by
  refine h.invariant (P := fun t _ => ∃ call, t.at? [i] = some call ∧
    ∀ leaf ∈ call.leaves, leaf.employer? = some (c.1, c.2.language)) ?_ ?_
  · rintro e t w t' w' hs ⟨call, hcall, hleaves⟩
    rcases hs.at? hcall with hstays | ⟨call', hcall', hstep⟩
    · exact ⟨call, hstays, hleaves⟩
    · exact ⟨call', hcall', hstep.forall_leaves
        (fun hm hleaf x hx => (hm.employer?_eq hx).trans hleaf) hleaves⟩
  · refine ⟨.load c.1 c.2, by simp [Task.loads, hi], fun leaf hleaf => ?_⟩
    obtain rfl := List.mem_singleton.1 hleaf
    rfl

/-- A branch that belongs to a call works for its loader, in its language. -/
theorem Run.employed {i : Nat} {c : Loader × LoadRequest} {m : Moment} {b : Branch}
    (h : Run answers ms (.loads calls) w t' w') (hi : calls[i]? = some c) (hm : m ∈ ms)
    (hof : m.isOf i = true) (hb : m.event.branch? = some b) :
    b.loader = c.1 ∧ b.language = c.2.language := by
  obtain ⟨before, t₁, w₁, hbefore, hstep⟩ := h.step_of_mem hm
  obtain ⟨others, ho⟩ := exists_owned_loads calls w
  obtain ⟨call, b', hcall, hb', hid⟩ := Moment.isOf_iff.1 hof
  obtain rfl : b = b' := Option.some.inj (hb.symm.trans hb')
  obtain ⟨call', hcall', hleaves⟩ := hbefore.employer?_of_call hi
  obtain rfl : call = call' := Option.some.inj (hcall.symm.trans hcall')
  -- under way for the identifier is the branch itself, and it is in the call
  obtain ⟨leaf, hleaf, hbranch⟩ := hstep.exists_leaf_of_branch? hb
  obtain ⟨b₁, hb₁, hsame⟩ := List.mem_map.1 hid
  obtain ⟨leaf₁, hleaf₁, hbranch₁⟩ := List.mem_filterMap.1 hb₁
  obtain rfl : leaf₁ = leaf := eq_of_branch? (hbefore.owned_beside ho).nodup_left hleaf
    (Task.leaves_subset_of_at? hcall hleaf₁) hbranch hbranch₁ hsame.symm
  have hemployer := hleaves _ hleaf₁
  rw [Task.employer?_of_branch? hbranch] at hemployer
  exact Prod.mk.inj (Option.some.inj hemployer)

/-- A moment belongs to one call only. -/
theorem Moment.isOf_unique {m : Moment} {i j : Nat} (hn : m.task.inFlight.Nodup)
    (hi : m.isOf i = true) (hj : m.isOf j = true) : i = j := by
  obtain ⟨call, b, hcall, hb, hid⟩ := isOf_iff.1 hi
  obtain ⟨call', b', hcall', hb', hid'⟩ := isOf_iff.1 hj
  obtain rfl : b = b' := Option.some.inj (hb.symm.trans hb')
  obtain ⟨tasks, ht⟩ : ∃ tasks, m.task = .joined tasks := by
    cases ht : m.task <;> simp_all [Task.at?]
  rw [ht] at hn hcall hcall'
  have hi : tasks[i]? = some call := by simpa using hcall
  have hj : tasks[j]? = some call' := by simpa using hcall'
  obtain ⟨hlt, rfl⟩ := List.getElem?_eq_some_iff.1 hi
  have hsplit : tasks = tasks.take i ++ tasks[i] :: tasks.drop (i + 1) := by simp
  by_contra hne
  have hlen : (tasks.take i).length = i := by simp [hlt.le]
  rw [hsplit] at hj hn
  exact not_mem_inFlight_of_beside hn hid (mem_beside hj (by rw [hlen]; exact Ne.symm hne)) hid'

/-! ### What is loaded -/

/-- What is loaded after a run an event has marked so, or it was before. -/
theorem Run.marked_of_success (h : Run answers ms t w t' w') :
    w'.registry.status? id = some .success →
      (∃ m ∈ ms, m.event.mark? id = some .success) ∨ w.registry.status? id = some .success := by
  induction h with
  | refl => exact .inr
  | @head e ms t t₁ t' w w₁ w' hs _ ih =>
    intro hsuccess
    rcases ih hsuccess with ⟨m, hm, hmark⟩ | hsuccess
    · exact .inl ⟨m, List.mem_cons_of_mem _ hm, hmark⟩
    · rw [hs.status?_eq] at hsuccess
      split at hsuccess
      · simp at hsuccess
      · cases hmark : e.mark? id with
        | none => exact .inr (by simpa [hmark] using hsuccess)
        | some status =>
          obtain rfl : status = .success := by simpa [hmark] using hsuccess
          exact .inl ⟨_, List.mem_cons_self, hmark⟩

/-- Two moments at which texts are admitted to one identifier are one. -/
theorem eq_of_admitted {m m' : Moment} {b b' : Branch} {fetched fetched' : Fetched}
    (hn : (admitted ms).Nodup) (hm : m ∈ ms) (hm' : m' ∈ ms)
    (ha : m.admitted? = some (b, fetched)) (ha' : m'.admitted? = some (b', fetched'))
    (hid : b'.resolved fetched' = b.resolved fetched) : m' = m := by
  obtain ⟨before, after, rfl⟩ := List.append_of_mem hm
  have hmem : ∀ {rest : List Moment}, m' ∈ rest → b.resolved fetched ∈ admitted rest :=
    fun hr => List.mem_map.2 ⟨_, List.mem_filterMap.2 ⟨m', hr, ha'⟩, hid⟩
  have hsplit : admitted (before ++ m :: after) =
      admitted before ++ b.resolved fetched :: admitted after := by simp [admitted, ha]
  rw [hsplit] at hn
  obtain ⟨-, hafter, hdisj⟩ := List.nodup_append'.1 hn
  rcases List.mem_append.1 hm' with hr | hr
  · exact absurd List.mem_cons_self (hdisj (hmem hr))
  · rcases List.mem_cons.1 hr with rfl | hr
    · rfl
    · exact absurd (hmem hr) (List.nodup_cons.1 hafter).1

/-- In the course of a call a text comes for an identifier. -/
def Brings (ms : List Moment) (call : Nat) (id text : String) : Prop :=
  ∃ m ∈ momentsOf call ms, ∃ b, m.event = .receive b (.ok ⟨text, .unchanged⟩) ∧ b.identifier = id

section

variable {l : Loader} {requests : List LoadRequest}

/-- What the loads of one loader register, they register under names of their own. -/
theorem Run.nodup_registeredIn (files : ∀ request ∈ requests, request.declaration = false)
    (h : Run answers ms (.loads (requests.map (l, ·))) w t' w') :
    ((registeredIn ms).map Registration.identifier).Nodup := by
  obtain ⟨others, ho⟩ := exists_owned_loads (requests.map (l, ·)) w
  have hadm : ∀ m ∈ ms, ∀ p, m.registers? = some p →
      ∃ b fetched, m.admitted? = some (b, fetched) ∧ p = (b.loader, b.continuation fetched) := by
    intro m hm p
    refine Moment.admitted?_of_registers? fun l' request he => ?_
    obtain ⟨_, hr, heq⟩ := List.mem_map.1 (h.mem_calls m hm l' request he)
    cases heq
    exact files _ hr
  have hl : ∀ p ∈ ms.filterMap Moment.registers?, p.1 = l := by
    intro p hp
    obtain ⟨m, hm, hreg⟩ := List.mem_filterMap.1 hp
    obtain ⟨b, fetched, ha, rfl⟩ := hadm m hm p hreg
    obtain ⟨hmem, -⟩ := (h.receives_answer m hm b _ (Moment.admitted?_eq_some.1 ha).1).1
    rw [List.map_map] at hmem
    obtain ⟨-, -, rfl⟩ := List.mem_map.1 hmem
    rfl
  have hnames : (registeredIn ms).map Registration.identifier =
      ((ms.filterMap Moment.registers?).map fun p => p.2.identifier).map l.declarationOf := by
    rw [registeredIn, List.map_map, List.map_map]
    refine List.map_congr_left fun p hp => ?_
    simp only [Function.comp_apply, Loader.registration, hl p hp]
  rw [hnames]
  exact ((h.nodup_admitted ho).sublist (registers_sublist hadm)).map
    fun _ _ heq => (l.declarationOf_inj).1 heq

/-- What a run registers counts for its language, and nothing else of its name changes. -/
theorem Run.declaration?_of_registeredIn {reg : Registration}
    (files : ∀ request ∈ requests, request.declaration = false) (host : w.host = .memory s)
    (h : Run answers ms (.loads (requests.map (l, ·))) w t' w') (hreg : reg ∈ registeredIn ms)
    (language : Language) : w'.host.service.declaration? reg.identifier language =
      if language = reg.language then some reg.text
      else s.declaration? reg.identifier language := by
  have hnodup := h.nodup_registeredIn files
  obtain ⟨s', hhost, hext⟩ := h.extends host (.refl s) (by simpa using hnodup)
  rw [List.nil_append] at hext
  rw [hhost]
  change s'.declaration? _ _ = _
  split
  · next hl =>
    subst hl
    exact hext.counts reg hreg
  · next hl =>
    refine hext.others _ _ fun reg' hreg' hname => ?_
    obtain rfl := List.inj_on_of_nodup_map hnodup hreg' hreg hname
    exact Ne.symm hl

/-- A text that has come where it was looked for is the only one for its identifier, and
its call the only one in which it has come. -/
theorem Run.brings_iff {call : Nat} {m : Moment} {b : Branch} {text : String}
    (unchanged : ∀ request fetched, answers request (.ok fetched) → fetched.hint = .unchanged)
    (h : Run answers ms (.loads calls) w t' w') (hm : m ∈ ms) (hof : m.isOf call = true)
    (he : m.event = .receive b (.ok ⟨text, .unchanged⟩)) (call' : Nat) (text' : String) :
    Brings ms call' b.identifier text' ↔ call' = call ∧ text' = text := by
  obtain ⟨others, ho⟩ := exists_owned_loads calls w
  constructor
  · rintro ⟨m', hm', b', he', hid⟩
    obtain ⟨hm', hof'⟩ := List.mem_filter.1 hm'
    have hres := h.resolved_eq unchanged hm he
    have hres' := h.resolved_eq unchanged hm' he'
    obtain rfl := eq_of_admitted (h.nodup_admitted ho) hm hm'
      (Moment.admitted?_eq_some.2 ⟨he, .inl hres⟩) (Moment.admitted?_eq_some.2 ⟨he', .inl hres'⟩)
      (by rw [hres, hres', hid])
    obtain ⟨before, -, -, hbefore, -⟩ := h.step_of_mem hm
    rw [he] at he'
    cases he'
    exact ⟨Moment.isOf_unique (hbefore.owned_beside ho).nodup_left hof' hof, rfl⟩
  · rintro ⟨rfl, rfl⟩
    exact ⟨m, List.mem_filter.2 ⟨hm, hof⟩, b, he, rfl⟩

/-- **A declaration is in the language of the call that brought its text.** However the
calls of one loader overlap, where modules stand where they are looked for and none is
empty, the text of what is loaded has come in the course of one call, and it is registered
for the language of this call and for no other. -/
theorem declared_for_call (files : ∀ request ∈ requests, request.declaration = false)
    (served : ∀ request fetched, answers request (.ok fetched) →
      fetched.hint = .unchanged ∧ fetched.text ≠ "")
    (fresh : ∀ id, w.registry.status? id = none) (host : w.host = .memory s)
    (h : Run answers ms (.loads (requests.map (l, ·))) w t' w') :
    ∀ id, w'.registry.status? id = some .success → ∃ call request text,
      requests[call]? = some request ∧
      (∀ call' text', Brings ms call' id text' ↔ call' = call ∧ text' = text) ∧
      ∀ language, w'.host.service.declaration? (l.declarationOf id) language =
        if language = request.language then some text
        else s.declaration? (l.declarationOf id) language := by
  intro id loaded
  have unchanged := fun request fetched ha => (served request fetched ha).1
  obtain ⟨m, hm, hmark⟩ : ∃ m ∈ ms, m.event.mark? id = some .success :=
    h.marked_of_success loaded |>.resolve_right (by simp [fresh])
  obtain ⟨b, ⟨text, hint⟩, he, hid⟩ := Event.mark?_eq_success.1 hmark
  have hres := h.resolved_eq unchanged hm he
  obtain ⟨hhint, htext⟩ := served _ _ (h.receives_answer m hm b _ he).2
  obtain rfl : hint = .unchanged := hhint
  obtain rfl : id = b.identifier := by simpa [hres] using hid
  -- the call to which the answer belongs, and for which its text is registered
  have hb : m.event.branch? = some b := by rw [he]; rfl
  obtain ⟨call, hlt, hof⟩ := h.exists_isOf_of_branch? hm hb
  rw [List.length_map] at hlt
  obtain ⟨hloader, hlanguage⟩ := h.employed (c := (l, requests[call])) (by simp [hlt]) hm hof hb
  have hreg : (⟨l.declarationOf b.identifier, requests[call].language, text⟩ : Registration) ∈
      registeredIn ms := by
    refine List.mem_map.2 ⟨_, List.mem_filterMap.2 ⟨m, hm, Moment.registers?_of_admitted
      (Moment.admitted?_eq_some.2 ⟨he, .inl hres⟩) htext⟩, ?_⟩
    simp only [Loader.registration, Branch.continuation, hres, hloader, hlanguage]
  exact ⟨call, requests[call], text, List.getElem?_eq_getElem hlt, h.brings_iff unchanged hm hof he,
    h.declaration?_of_registeredIn files host hreg⟩

end

/-- A text that is loaded in one language and in the other. -/
def inBoth : List LoadRequest :=
  [topRequest importBeside .typescript, topRequest importBeside .javascript]

/-- What the two loads come to in the schedule. -/
def loadedInBoth : Task × Workspace :=
  (settle (ModuleSource.catalog mendedBeside).fetcher 9 0
    (.loads (inBoth.map (({ fetches := true } : Loader), ·))) {}).2

theorem served_mendedBeside (request : FetchRequest) (fetched : Fetched)
    (ha : (ModuleSource.catalog mendedBeside).fetcher.answers request (.ok fetched)) :
    fetched.hint = .unchanged ∧ fetched.text ≠ "" := by
  obtain ⟨entry, hmem, rfl⟩ := mem_of_catalog_answers ha
  obtain rfl := List.mem_singleton.1 hmem
  exact ⟨rfl, by decide⟩

/-- The import is registered in the language of one of the two calls only. -/
theorem declared_inBoth : ∃ ms t' w', Run (ModuleSource.catalog mendedBeside).fetcher.answers ms
      (.loads (inBoth.map (({ fetches := true } : Loader), ·))) {} t' w' ∧
    t'.outcome? = some (.ok ()) ∧ ∃ call request text, inBoth[call]? = some request ∧
      Brings ms call "/x" text ∧ ∀ language, w'.host.service.declaration? "/x.d.ts" language =
        if language = request.language then some text else none := by
  obtain ⟨ms, h⟩ : Leads (ModuleSource.catalog mendedBeside).fetcher.answers _ _
    loadedInBoth.1 loadedInBoth.2 := leads_settle _ _ _ _ _
  obtain ⟨ok, loaded⟩ : loadedInBoth.1.outcome? = some (.ok ()) ∧
    loadedInBoth.2.registry.status? "/x" = some .success := by decide +kernel
  obtain ⟨call, request, text, hr, hbrings, hd⟩ := declared_for_call (s := {})
    (by simp [inBoth, topRequest]) served_mendedBeside (fun _ => rfl) rfl h "/x" loaded
  have hname : Loader.declarationOf { fetches := true } "/x" = "/x.d.ts" := by decide
  rw [hname] at hd
  exact ⟨ms, _, _, h, ok, call, request, text, hr, (hbrings call text).2 ⟨rfl, rfl⟩, hd⟩

/-! ### A load in another language -/

/-- The load in the one language. -/
def inTypescript : Task × Workspace := scheduled mendedBeside importBeside .typescript {}

/-- The load in the other, afterwards. -/
def inJavascript : Task × Workspace :=
  scheduled mendedBeside importBeside .javascript inTypescript.2

theorem inJavascript_spec : inTypescript.1.outcome? = some (.ok ()) ∧
    inJavascript.1.outcome? = some (.ok ()) ∧
    inJavascript.2.registry.status? "/x" = some .success ∧
    (inJavascript.2.registry.fileInfo? "/a").map FileInfo.filepaths = some ["/x"] ∧
    inJavascript.2.host.service.declaration? "/x.d.ts" .javascript = none := by
  decide +kernel

/-- After a load in one language, a load in the other goes well without a declaration for
what it refers to. -/
theorem not_declared_in_language : ∃ ms t w ms₂ t₂ w₂,
    Run (ModuleSource.catalog mendedBeside).fetcher.answers ms
      (loadAlone importBeside .typescript) {} t w ∧ t.outcome? = some (.ok ()) ∧
    Run (ModuleSource.catalog mendedBeside).fetcher.answers ms₂
      (loadAlone importBeside .javascript) w t₂ w₂ ∧ t₂.outcome? = some (.ok ()) ∧
    (∀ request fetched, (ModuleSource.catalog mendedBeside).fetcher.answers request
      (.ok fetched) → fetched.hint = .unchanged ∧ fetched.text ≠ "") ∧
    w₂.registry.Refers "/a" "/x" ∧ w₂.registry.status? "/x" = some .success ∧
    w₂.host.service.declaration? (Loader.declarationOf { fetches := true } "/x") .javascript =
      none := by
  obtain ⟨ms, h⟩ := exists_run_scheduled mendedBeside importBeside .typescript {}
  obtain ⟨ms₂, h₂⟩ := exists_run_scheduled mendedBeside importBeside .javascript inTypescript.2
  obtain ⟨ok, ok₂, loaded, hrefers, hnone⟩ := inJavascript_spec
  exact ⟨ms, _, _, ms₂, _, _, h, ok, h₂, ok₂, served_mendedBeside,
    Registry.refers_of_filepaths hrefers List.mem_cons_self, loaded, hnone⟩

end ModuleGraph
