/-
# What becomes of a fetched text

A text that is fetched is registered under the identifier it resolved to, except
where its answer is redirected onto one that is loading or loaded: then it is
dropped, and what was begun for that identifier is left to bring a text. So every
identifier that is loading or loaded is accounted for (`Accounted`): a declaration
stands under it, or a fetch is under way for it, or an answer has brought no text
for it. Once all calls have settled none is under way.

Two answers that are redirected onto each other's identifiers are both dropped.

Key definitions: `Service.Declares`, `Event.Barren`, `Accounted`, `Task.employer?`.
Key theorems: `declared_of_answered`, `not_declared_importBeside`.
-/
import ModuleGraph.Proofs.Overlap
import ModuleGraph.Session

namespace ModuleGraph

/-- A declaration stands under the name that one of the loaders gives to an identifier. -/
def Service.Declares (s : Service) (loaders : List Loader) (id : String) : Prop :=
  ∃ l ∈ loaders, ∃ language, (s.declaration? (l.declarationOf id) language).isSome

/-- An answer that brings no text for an identifier: to its own fetch a failure or a
text that belongs elsewhere, or an empty text that belongs to it. -/
def Event.Barren (id : String) : Event → Prop
  | .receive b (.error _) => b.identifier = id
  | .receive b (.ok fetched) =>
    b.identifier = id ∧ b.resolved fetched ≠ id ∨ b.resolved fetched = id ∧ fetched.text = ""
  | _ => False

/-- A declaration stands under an identifier, or will, or an answer has brought no text
for it. -/
def Accounted (loaders : List Loader) (past : List Moment) (t : Task) (w : Workspace)
    (id : String) : Prop :=
  w.host.service.Declares loaders id ∨ (∃ m ∈ past, m.event.Barren id) ∨ id ∈ t.inFlight

/-- The loader that a leaf works for. -/
def Task.loader? : Task → Option Loader
  | load l _ => some l
  | queued b => some b.loader
  | fetching b _ _ => some b.loader
  | _ => none

/-- The loader that a leaf works for, and the language that it does so in. -/
def Task.employer? : Task → Option (Loader × Language)
  | load l request => some (l, request.language)
  | queued b => some (b.loader, b.language)
  | fetching b _ _ => some (b.loader, b.language)
  | _ => none

theorem Task.loader?_eq (t : Task) : t.loader? = t.employer?.map Prod.fst := by
  cases t <;> rfl

theorem Task.employer?_of_branch? {t : Task} {b : Branch} (h : t.branch? = some b) :
    t.employer? = some (b.loader, b.language) := by
  cases t <;> cases h <;> rfl

variable {answers : Answers} {e : Event} {t t' : Task} {w w' : Workspace} {loaders : List Loader}
  {past : List Moment} {id : String}

/-! ### Declarations -/

/-- A step leaves the service as it is, or announces a request to it. -/
theorem Step.host (h : Step answers e t w t' w') :
    w'.host = w.host ∨ ∃ l request, w'.host = w.host.map (Loader.announce l request) := by
  obtain ⟨_, _, _, _, hm, _, _⟩ := h.splice
  cases hm with
  | load l request => exact .inr ⟨l, request, host_expand l request w⟩
  | start b delivery now _ => exact .inl rfl
  | receive b answer due =>
    cases answer with
    | error cause => exact .inl rfl
    | ok fetched =>
      exact receive_cases
        (P := fun r => r.2.host = w.host ∨
          ∃ l request, r.2.host = w.host.map (Loader.announce l request))
        (fun l request => .inr ⟨l, request, host_expand l request _⟩) (.inl rfl)

theorem Step.memory {s : Service} (h : Step answers e t w t' w') (host : w.host = .memory s) :
    ∃ s', w'.host = .memory s' := by
  rcases h.host with hw | ⟨l, request, hw⟩
  · exact ⟨s, hw.trans host⟩
  · rw [host] at hw
    exact ⟨l.announce request s, hw⟩

/-- A step takes no declaration away. -/
theorem Step.isSome_declaration? {name : String} {language : Language}
    (h : Step answers e t w t' w') (hd : (w.host.service.declaration? name language).isSome) :
    (w'.host.service.declaration? name language).isSome := by
  rcases h.host with hw | ⟨l, request, hw⟩
  · rw [hw]
    exact hd
  · rw [hw]
    cases host : w.host with
    | offline reason =>
      rw [host] at hd
      exact hd
    | memory s =>
      rw [host] at hd
      change ((l.announce request s).declaration? name language).isSome
      rw [declaration?_announce]
      split
      · rfl
      · exact hd

theorem Step.declares (h : Step answers e t w t' w')
    (hd : w.host.service.Declares loaders id) : w'.host.service.Declares loaders id := by
  obtain ⟨l, hl, language, hs⟩ := hd
  exact ⟨l, hl, language, h.isSome_declaration? hs⟩

/-- A text that is admitted and not empty is registered. -/
theorem isSome_declaration?_receive {b : Branch} {fetched : Fetched} {s : Service}
    (host : w.host = .memory s) (ha : b.Admits fetched w.registry) (ht : fetched.text ≠ "") :
    ((b.receive (.ok fetched) w).2.host.service.declaration?
      (b.loader.declarationOf (b.resolved fetched)) b.language).isSome := by
  have hnoted : (b.noted fetched w).host = .memory s := host
  rw [receive_of_admits ha, host_expand, hnoted]
  simp [ServiceHost.map, ServiceHost.service, declaration?_announce, ht]

/-! ### Steps -/

theorem blocked_expand (l : Loader) (request : LoadRequest)
    (h : (expand l request w).2.registry.mayLoad id = false) :
    w.registry.mayLoad id = false ∨ id ∈ Task.identifiers (expand l request w).1.leaves := by
  rw [Registry.mayLoad_eq_false_iff, status?_expand] at h
  rw [Registry.mayLoad_eq_false_iff, identifiers_expand]
  by_cases hd : id ∈ dispatched l request.language (l.dependencies request) w.registry
  · exact .inr hd
  · rw [if_neg hd] at h
    exact .inl h

/-- What a step blocks has been dispatched, or an answer has come for it or led to it. -/
theorem Step.blocked (h : Step answers e t w t' w') (hb : w'.registry.mayLoad id = false) :
    w.registry.mayLoad id = false ∨ id ∈ t'.inFlight ∨
      ∃ b fetched, e = .receive b (.ok fetched) ∧
        (id = b.identifier ∨ id = b.resolved fetched) := by
  obtain ⟨leaf, new, ids, hm, -, ht'⟩ := h.inFlight_perm
  have hnew : id ∈ Task.identifiers new.leaves → id ∈ t'.inFlight := fun hid =>
    ht'.mem_iff.2 (List.mem_append_left _ hid)
  cases hm with
  | load l request =>
    rcases blocked_expand l request hb with hw | hid
    · exact .inl hw
    · exact .inr (.inl (hnew hid))
  | start b delivery now _ => exact .inl hb
  | receive b answer due =>
    cases answer with
    | error cause =>
      by_cases he : b.identifier = id
      · simp [Branch.receive, Registry.mayLoad_eq_false_iff, he] at hb
      · left
        simpa [Branch.receive, Registry.mayLoad_eq_false_iff, he] using hb
    | ok fetched =>
      by_cases hid : id = b.identifier ∨ id = b.resolved fetched
      · exact .inr (.inr ⟨b, fetched, rfl, hid⟩)
      · have hnoted : (b.noted fetched w).registry.mayLoad id = false →
            w.registry.mayLoad id = false := by
          rw [Registry.mayLoad_eq_false_iff, Registry.mayLoad_eq_false_iff, status?_noted,
            if_neg hid]
          exact fun h => h
        have hcases : (b.noted fetched w).registry.mayLoad id = false ∨
            id ∈ Task.identifiers (b.receive (.ok fetched) w).1.leaves :=
          receive_cases
            (P := fun r => r.2.registry.mayLoad id = false →
              (b.noted fetched w).registry.mayLoad id = false ∨ id ∈ Task.identifiers r.1.leaves)
            (fun l request => blocked_expand l request) (fun h => .inl h) hb
        rcases hcases with hw | hid
        · exact .inl (hnoted hw)
        · exact .inr (.inl (hnew hid))

/-- What becomes of a leaf works for the same loader, in the same language. -/
theorem Move.employer?_eq {leaf new x : Task} (h : Move answers e leaf w new w')
    (hx : x ∈ new.leaves) : x.employer? = leaf.employer? := by
  have hexpand : ∀ {l : Loader} {request : LoadRequest} {w : Workspace},
      x ∈ (expand l request w).1.leaves → x.employer? = some (l, request.language) := by
    intro l request w hx
    rw [leaves_expand] at hx
    obtain ⟨b, hb, rfl⟩ := List.mem_map.1 hx
    obtain ⟨p, -, rfl⟩ := mem_dispatch hb
    rfl
  cases h with
  | load l request => exact hexpand hx
  | start b delivery now _ =>
    obtain rfl := List.mem_singleton.1 hx
    rfl
  | receive b answer due =>
    cases answer with
    | error cause => simp [Branch.receive] at hx
    | ok fetched =>
      by_cases ha : b.Admits fetched w.registry
      · rw [receive_of_admits ha] at hx
        exact hexpand hx
      · rw [receive_of_not_admits ha] at hx
        simp at hx

theorem Move.loader?_eq {leaf new x : Task} {l : Loader} (h : Move answers e leaf w new w')
    (hx : x ∈ new.leaves) (hl : x.loader? = some l) : leaf.loader? = some l := by
  rw [Task.loader?_eq, h.employer?_eq hx, ← Task.loader?_eq] at hl
  exact hl

/-- What a run has done so far: the leaves work for the loaders, what is loading or
loaded is accounted for, and so is every text that was fetched. -/
structure Kept (loaders : List Loader) (past : List Moment) (t : Task) (w : Workspace) :
    Prop where
  memory : ∃ s, w.host = .memory s
  employed : ∀ leaf ∈ t.leaves, ∀ l, leaf.loader? = some l → l ∈ loaders
  accounted : ∀ id, w.registry.mayLoad id = false → Accounted loaders past t w id
  answered : ∀ m ∈ past, ∀ b fetched, m.event = .receive b (.ok fetched) → fetched.text ≠ "" →
    Accounted loaders past t w (b.resolved fetched) ∧
      (b.Admits fetched m.workspace.registry → (w.host.service.declaration?
        (b.loader.declarationOf (b.resolved fetched)) b.language).isSome)

namespace Kept

theorem declares (hk : Kept loaders past t w) {b : Branch} {fetched : Fetched}
    (h : Step answers (.receive b (.ok fetched)) t w t' w') (ha : b.Admits fetched w.registry)
    (ht : fetched.text ≠ "") : w'.host.service.Declares loaders (b.resolved fetched) := by
  obtain ⟨⟨due, hleaf⟩, rfl⟩ := h.receive_inv
  obtain ⟨s, host⟩ := hk.memory
  exact ⟨b.loader, hk.employed _ hleaf _ rfl, b.language, isSome_declaration?_receive host ha ht⟩

/-- What is accounted for stays so: a fetch that is no longer under way has brought a
text, or not. -/
theorem accounted_step (hk : Kept loaders past t w) (h : Step answers e t w t' w')
    (ha : Accounted loaders past t w id) : Accounted loaders (past ++ [⟨e, t, w⟩]) t' w' id := by
  rcases ha with hd | ⟨m, hm, hb⟩ | hid
  · exact .inl (h.declares hd)
  · exact .inr (.inl ⟨m, List.mem_append_left _ hm, hb⟩)
  · rcases h.mem_inFlight hid with hid | ⟨b, a, rfl, rfl⟩
    · exact .inr (.inr hid)
    · have hlast : (⟨.receive b a, t, w⟩ : Moment) ∈ past ++ [⟨.receive b a, t, w⟩] := by simp
      cases a with
      | error cause => exact .inr (.inl ⟨_, hlast, rfl⟩)
      | ok fetched =>
        by_cases hres : b.resolved fetched = b.identifier
        · by_cases hempty : fetched.text = ""
          · exact .inr (.inl ⟨_, hlast, .inr ⟨hres, hempty⟩⟩)
          · have hd := hk.declares h (.inl hres) hempty
            rw [hres] at hd
            exact .inl hd
        · exact .inr (.inl ⟨_, hlast, .inl ⟨rfl, hres⟩⟩)

/-- A text that arrives is accounted for: where it is dropped, what it resolved to was
loading or loaded. -/
theorem accounted_resolved (hk : Kept loaders past t w) {b : Branch} {fetched : Fetched}
    (h : Step answers (.receive b (.ok fetched)) t w t' w') :
    Accounted loaders (past ++ [⟨.receive b (.ok fetched), t, w⟩]) t' w'
      (b.resolved fetched) := by
  by_cases ha : b.Admits fetched w.registry
  · by_cases hempty : fetched.text = ""
    · exact .inr (.inl ⟨⟨.receive b (.ok fetched), t, w⟩, by simp, .inr ⟨rfl, hempty⟩⟩)
    · exact .inl (hk.declares h ha hempty)
  · have hblocked : w.registry.mayLoad (b.resolved fetched) = false :=
      eq_false_of_ne_true fun hf => ha (.inr hf)
    exact hk.accounted_step h (hk.accounted _ hblocked)

theorem step (h : Step answers e t w t' w') (hk : Kept loaders past t w) :
    Kept loaders (past ++ [⟨e, t, w⟩]) t' w' where
  memory := by
    obtain ⟨s, hs⟩ := hk.memory
    exact h.memory hs
  employed := h.forall_leaves
    (fun hm hleaf x hx l hl => hleaf l (hm.loader?_eq hx hl)) hk.employed
  accounted id hb := by
    rcases h.blocked hb with hw | hid | ⟨b, fetched, rfl, rfl | rfl⟩
    · exact hk.accounted_step h (hk.accounted id hw)
    · exact .inr (.inr hid)
    · obtain ⟨⟨due, hleaf⟩, -⟩ := h.receive_inv
      exact hk.accounted_step h (.inr (.inr (Task.mem_inFlight hleaf rfl)))
    · exact hk.accounted_resolved h
  answered m hm b fetched he ht := by
    rcases List.mem_append.1 hm with hm | hm
    · obtain ⟨hacc, hadm⟩ := hk.answered m hm b fetched he ht
      exact ⟨hk.accounted_step h hacc, fun ha => h.isSome_declaration? (hadm ha)⟩
    · obtain rfl := List.mem_singleton.1 hm
      obtain rfl : e = .receive b (.ok fetched) := he
      refine ⟨hk.accounted_resolved h, fun ha => ?_⟩
      obtain ⟨s, hs⟩ := hk.memory
      obtain ⟨-, rfl⟩ := h.receive_inv
      exact isSome_declaration?_receive hs ha ht

end Kept

/-! ### Runs -/

variable {calls : List (Loader × LoadRequest)} {ms : List Moment} {s : Service}

theorem kept_of_loads (free : ∀ id, w.registry.mayLoad id = true) (host : w.host = .memory s)
    (h : Run answers ms (.loads calls) w t' w') : Kept (calls.map Prod.fst) ms t' w' := by
  refine h.preserves (P := Kept (calls.map Prod.fst)) Kept.step ?_
  refine ⟨⟨s, host⟩, ?_, fun id hb => ?_, by simp⟩
  · rw [Task.leaves_loads]
    intro leaf hleaf l hl
    obtain ⟨c, hc, rfl⟩ := List.mem_map.1 hleaf
    obtain rfl : c.1 = l := Option.some.inj hl
    exact List.mem_map_of_mem hc
  · rw [free id] at hb
    exact absurd hb (by decide)

/-- **No text is lost but where one is dropped.** Once all calls have settled, every
text that was fetched and admitted is registered under what it resolved to; for one
that was dropped, another is, unless an answer brought none for that identifier. -/
theorem declared_of_answered (free : ∀ id, w.registry.mayLoad id = true)
    (host : w.host = .memory s) (h : Run answers ms (.loads calls) w t' w')
    (settled : t'.outcome?.isSome) :
    ∀ m ∈ ms, ∀ b fetched, m.event = .receive b (.ok fetched) → fetched.text ≠ "" →
      (b.Admits fetched m.workspace.registry ∧ (w'.host.service.declaration?
        (b.loader.declarationOf (b.resolved fetched)) b.language).isSome) ∨
      (¬ b.Admits fetched m.workspace.registry ∧
        (w'.host.service.Declares (calls.map Prod.fst) (b.resolved fetched) ∨
          ∃ m' ∈ ms, m'.event.Barren (b.resolved fetched))) := by
  intro m hm b fetched he ht
  obtain ⟨hacc, hadm⟩ := (kept_of_loads free host h).answered m hm b fetched he ht
  by_cases ha : b.Admits fetched m.workspace.registry
  · exact .inl ⟨ha, hadm ha⟩
  · refine .inr ⟨ha, ?_⟩
    rcases hacc with hd | hb | hid
    · exact .inl hd
    · exact .inr hb
    · have hnone : t'.leaves = [] := (Task.isSome_outcome? t').1 settled
      simp [Task.inFlight, hnone] at hid

/-- A text that refers to nothing. -/
theorem dependencies_number (identifier : String) :
    Loader.dependencies { fetches := true } ⟨"1", identifier, .typescript, true⟩ = [] := by
  have h : (Loader.parse { fetches := true } "1").map references = some [] := by decide +kernel
  obtain ⟨tree, hp, hr⟩ := Option.map_eq_some_iff.1 h
  simp [Loader.dependencies, hp, Loader.resolve, hr]

/-- The text at the top is redirected onto what is loaded below, and dropped: what is
registered is the text below. -/
theorem declared_importBeside : ∃ ms t' w',
    Run (fun _ _ => True) ms
      (twoLoads { fetches := true } .typescript importBeside "/a" "/b/c") {} t' w' ∧
    t'.outcome?.isSome ∧
    ∃ language, (w'.host.service.declaration? "/b/x.d.ts" language).isSome := by
  obtain ⟨ms, w, h, hs, -, hearly⟩ := exists_run_importBeside (fun _ _ => True)
    (.ok ⟨"2", .renamed "/b/x"⟩) (.ok ⟨"1", .unchanged⟩) (w := {}) (fun _ => rfl) trivial trivial
  set b := branchBeside "/a"
  set b' := branchBeside "/b/c"
  have hb : b.identifier = "/x" := identifier_branchBeside_top
  have hb' : b'.identifier = "/b/x" := identifier_branchBeside_below
  have hres : b.resolved ⟨"2", .renamed "/b/x"⟩ = "/b/x" := rfl
  have hres' : b'.resolved ⟨"1", .unchanged⟩ = "/b/x" := hb'
  have hsecond : b'.receive (.ok ⟨"1", .unchanged⟩) w =
      expand { fetches := true } ⟨"1", "/b/x", .typescript, true⟩
        (b'.noted ⟨"1", .unchanged⟩ w) := by
    rw [receive_of_admits (.inl rfl), hres']
    rfl
  set w₁ := (b'.receive (.ok ⟨"1", .unchanged⟩) w).2 with hw₁
  have hloaded : w₁.registry.status? "/b/x" = some .success := by
    rw [hw₁, hsecond, status?_expand, dependencies_number]
    simp [dispatched, dispatch, status?_noted, hb']
  have hfirst : ¬ b.Admits ⟨"2", .renamed "/b/x"⟩ w₁.registry := by
    simp [Branch.Admits, hres, hb, Registry.mayLoad_eq_true_iff, hloaded]
  have hrun := h.trans (run_receive b b' (.ok ⟨"2", .renamed "/b/x"⟩) (.ok ⟨"1", .unchanged⟩) w _)
  rw [← hw₁] at hrun
  have hsettled : (withinLoads (b.receive (.ok ⟨"2", .renamed "/b/x"⟩) w₁).1
      (b'.receive (.ok ⟨"1", .unchanged⟩) w).1).outcome?.isSome := by
    rw [Task.isSome_outcome?, leaves_withinLoads, receive_of_not_admits hfirst, hsecond,
      leaves_expand, dependencies_number]
    rfl
  refine ⟨_, _, _, hrun, hsettled, ?_⟩
  have hfree : ∀ id, ({} : Workspace).registry.mayLoad id = true := fun _ => rfl
  have hkept := declared_of_answered hfree rfl hrun hsettled
    (firstAnswered b b' (.ok ⟨"2", .renamed "/b/x"⟩) (.ok ⟨"1", .unchanged⟩) w) (by simp)
    b ⟨"2", .renamed "/b/x"⟩ rfl (by decide)
  rw [workspace_firstAnswered, ← hw₁] at hkept
  rcases hkept with ⟨ha, -⟩ | ⟨-, hd | ⟨m, hm, hbarren⟩⟩
  · exact absurd ha hfirst
  · obtain ⟨l, hl, language, hd⟩ := hd
    obtain rfl : l = { fetches := true } := by simpa using hl
    have hname : Loader.declarationOf { fetches := true } "/b/x" = "/b/x.d.ts" := by decide
    rw [hres, hname] at hd
    exact ⟨language, hd⟩
  · exfalso
    rcases List.mem_append.1 hm with hm | hm
    · cases hevent : m.event with
      | receive b a => exact hearly m hm b a hevent
      | _ => simp [hevent, Event.Barren] at hbarren
    · simp only [List.mem_cons, List.not_mem_nil, or_false] at hm
      rcases hm with rfl | rfl
      · simp [secondAnswered, Event.Barren, hres, hres', hb'] at hbarren
      · simp [firstAnswered, Event.Barren, hres, hb] at hbarren

/-- What is served at the top, and known as `/b/x`. -/
def crossedTop : Fetched := ⟨"export const x = 1;", .renamed "/b/x"⟩

/-- What is served below, and known as `/x`. -/
def crossedBelow : Fetched := ⟨"export const y = 1;", .renamed "/x"⟩

def crossed : ModuleSource :=
  .catalog [("/x", { text := crossedTop.text, hint := crossedTop.hint }),
    ("/b/x", { text := crossedBelow.text, hint := crossedBelow.hint })]

/-- Each of two texts is redirected onto the other's identifier, which is loading: both
are dropped, and both identifiers are marked as loaded. -/
theorem not_declared_importBeside : ∃ ms t' w',
    Run crossed.fetcher.answers ms
      (twoLoads { fetches := true } .typescript importBeside "/a" "/b/c") {} t' w' ∧
    t'.outcome? = some (.ok ()) ∧ crossedTop.text ≠ "" ∧
    (∃ m ∈ ms, ∃ b, m.event = .receive b (.ok crossedTop) ∧
      w'.registry.status? (b.resolved crossedTop) = some .success ∧
      ¬ w'.host.service.Declares [{ fetches := true }] (b.resolved crossedTop)) ∧
    w'.host.service.history = [] := by
  have htop : crossed.fetcher.answers (branchBeside "/a").request (.ok crossedTop) := by
    simp [Fetcher.answers, Branch.request, relativePath_branchBeside_top, crossed,
      ModuleSource.fetcher, ModuleSource.fromCatalog, Table.get?]
  have hbelow : crossed.fetcher.answers (branchBeside "/b/c").request (.ok crossedBelow) := by
    simp [Fetcher.answers, Branch.request, relativePath_branchBeside_below, crossed,
      ModuleSource.fetcher, ModuleSource.fromCatalog, Table.get?]
  obtain ⟨ms, w, h, hs, hhost, -⟩ := exists_run_importBeside crossed.fetcher.answers
    _ _ (w := {}) (fun _ => rfl) htop hbelow
  set b := branchBeside "/a"
  set b' := branchBeside "/b/c"
  have hb : b.identifier = "/x" := identifier_branchBeside_top
  have hb' : b'.identifier = "/b/x" := identifier_branchBeside_below
  have hres : b.resolved crossedTop = "/b/x" := rfl
  have hres' : b'.resolved crossedBelow = "/x" := rfl
  have hsecond : ¬ b'.Admits crossedBelow w.registry := by
    simp [Branch.Admits, hres', hb', Registry.mayLoad_eq_true_iff, hs]
  set w₁ := (b'.receive (.ok crossedBelow) w).2 with hw₁
  have hw₁' : w₁ = b'.noted crossedBelow w := by rw [hw₁, receive_of_not_admits hsecond]
  have hfirst : ¬ b.Admits crossedTop w₁.registry := by
    simp [Branch.Admits, hres, hb, Registry.mayLoad_eq_true_iff, hw₁', status?_noted, hb']
  have hrun := h.trans (run_receive b b' (.ok crossedTop) (.ok crossedBelow) w _)
  have houtcome : (withinLoads (b.receive (.ok crossedTop) w₁).1
      (b'.receive (.ok crossedBelow) w).1).outcome? = some (.ok ()) := by
    rw [receive_of_not_admits hfirst, receive_of_not_admits hsecond]
    rfl
  have hempty : (b.receive (.ok crossedTop) w₁).2.host = .memory {} := by
    rw [receive_of_not_admits hfirst, hw₁']
    exact hhost
  refine ⟨_, _, _, hrun, houtcome, by decide,
    ⟨firstAnswered b b' (.ok crossedTop) (.ok crossedBelow) w, by simp, b, rfl, ?_, ?_⟩, ?_⟩
  · rw [receive_of_not_admits hfirst]
    simp [status?_noted]
  · rw [hempty]
    rintro ⟨l, -, language, hd⟩
    simp [ServiceHost.service, Service.declaration?] at hd
  · rw [hempty]
    rfl

end ModuleGraph
