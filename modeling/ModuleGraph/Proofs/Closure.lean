/-
# What a set of loads comes to

If what is answered for a module depends on its candidate identifier alone, and
leads nowhere else, then it does not matter how the loads overlap: once all have
settled, the identifiers with a status are those that the files refer to, and in
turn the texts served for them (`Graph.Needed`). Each is loaded or failed as it is
served, and what is loaded is registered, once, unless it is empty.

The invariant (`Explored`) is that of a search: what a text refers to has a status
once the text has been expanded, and a status has been needed. A reference that is
passed over, since it is loading, has a branch under way for it (`Owned`), and that
branch will be answered.

Key definitions: `Graph`, `Graph.Needed`, `Graph.Loaded`, `Service.Extends`,
`Graph.Explored`.
Key theorems: `Graph.Explored.step`, `Graph.Explored.loaded`, `loaded_of_settled`.
-/
import ModuleGraph.Proofs.StatusLaw

namespace ModuleGraph

/-! ### Registrations -/

/-- A service after some registrations, no two of them under one name: these count,
and what stood under other names stays. -/
structure Service.Extends (s s' : Service) (regs : List Registration) : Prop where
  history : s'.history = s.history ++ regs
  nodup : (regs.map Registration.identifier).Nodup
  counts : ∀ reg ∈ regs, s'.declaration? reg.identifier reg.language = some reg.text
  others : ∀ name language, (∀ reg ∈ regs, reg.identifier = name → reg.language ≠ language) →
    s'.declaration? name language = s.declaration? name language

namespace Service.Extends

variable {s s' : Service} {regs : List Registration}

theorem refl (s : Service) : s.Extends s [] := by
  refine ⟨by simp, List.nodup_nil, by simp, fun _ _ _ => rfl⟩

/-- A request that is announced registers at most one text, under a new name. -/
theorem announce (h : s.Extends s' regs) (l : Loader) (request : LoadRequest)
    (new : ∀ reg ∈ regs, reg.identifier ≠ l.declarationOf request.identifier) :
    s.Extends (l.announce request s') (regs ++ l.registrations request) := by
  cases hr : request.declaration && !request.text.isEmpty with
  | false =>
    rw [announce_eq_id l request hr]
    simpa [Loader.registrations, hr] using h
  | true =>
    have hregs : l.registrations request =
        [⟨l.declarationOf request.identifier, request.language, request.text⟩] := by
      simp [Loader.registrations, hr]
    refine ⟨?_, ?_, fun reg hreg => ?_, fun name language hname => ?_⟩
    · rw [history_announce, h.history, List.append_assoc]
    · rw [hregs, List.map_append]
      refine List.nodup_append'.2 ⟨h.nodup, by simp, fun name hname hlast => ?_⟩
      obtain ⟨reg, hreg, rfl⟩ := List.mem_map.1 hname
      exact new reg hreg (by simpa using hlast)
    · rw [hregs] at hreg
      rw [declaration?_announce]
      rcases List.mem_append.1 hreg with hreg | hreg
      · rw [if_neg fun hc => new reg hreg hc.2.1.symm]
        exact h.counts reg hreg
      · obtain rfl := List.mem_singleton.1 hreg
        rw [if_pos ⟨hr, rfl, rfl⟩]
    · rw [hregs] at hname
      have hlast := hname _ (List.mem_append_right _ (List.mem_singleton_self _))
      rw [declaration?_announce, if_neg fun hc => hlast hc.2.1 hc.2.2]
      exact h.others name language fun reg hreg => hname reg (List.mem_append_left _ hreg)

end Service.Extends

/-! ### Loads that begin -/

/-- The identifiers that the text of a request refers to. -/
def Loader.targets (l : Loader) (request : LoadRequest) : List String :=
  (l.dependencies request).map fun p => p.2.identifier

/-- Of some identifiers, the loads of those that were free have begun. -/
structure Registry.Begins (ids : List String) (r r' : Registry) : Prop where
  seen : ∀ id ∈ ids, r'.status? id ≠ none
  same : ∀ id, r'.status? id = r.status? id ∨
    id ∈ ids ∧ r.mayLoad id = true ∧ r'.status? id = some .loading

namespace Registry.Begins

variable {ids : List String} {r r' : Registry} {id : String}

theorem ne_none (h : Begins ids r r') (hs : r.status? id ≠ none) : r'.status? id ≠ none := by
  rcases h.same id with he | ⟨-, -, he⟩ <;> rw [he]
  · exact hs
  · simp

theorem success_iff (h : Begins ids r r') :
    r'.status? id = some .success ↔ r.status? id = some .success := by
  rcases h.same id with he | ⟨-, hf, he⟩ <;> rw [he]
  rw [mayLoad_eq_true_iff] at hf
  rcases hf with hf | hf <;> simp [hf]

theorem eq_error (h : Begins ids r r') (hs : r'.status? id = some .error) :
    r.status? id = some .error := by
  rcases h.same id with he | ⟨-, -, he⟩ <;> rw [he] at hs
  · exact hs
  · simp at hs

end Registry.Begins

/-- An expansion begins the loads of what its text refers to. -/
theorem begins_expand (l : Loader) (request : LoadRequest) (w : Workspace) :
    Registry.Begins (l.targets request) w.registry (expand l request w).2.registry := by
  refine ⟨fun id hid => ?_, fun id => ?_⟩
  · obtain ⟨p, hp, rfl⟩ := List.mem_map.1 hid
    have hb : (dispatch l request.language (l.dependencies request) w.registry).2.mayLoad
      p.2.identifier = false := blocked_dispatch hp
    rw [Registry.mayLoad_eq_false_iff, ← (expand_spec l request w).2.1] at hb
    rcases hb with hb | hb <;> simp [hb]
  · rw [status?_expand]
    split
    · next hd =>
      refine .inr ⟨?_, mayLoad_of_mem_dispatched hd, rfl⟩
      obtain ⟨b, hb, rfl⟩ := List.mem_map.1 hd
      obtain ⟨p, hp, rfl⟩ := mem_dispatch hb
      exact List.mem_map_of_mem hp
    · exact .inl rfl

/-! ### Modules that refer to each other -/

/-- Files that are handed over to one loader, and what is served for an identifier. -/
structure Graph where
  loader : Loader
  language : Language
  /-- The files, each with its identifier and its text. -/
  files : List (String × String)
  serve : String → Except FetchError String

namespace Graph

/-- The request for a file. -/
def handed (g : Graph) (file : String × String) : LoadRequest :=
  ⟨file.2, file.1, g.language, false⟩

/-- The request for a text that is served. -/
def fetched (g : Graph) (id text : String) : LoadRequest := ⟨text, id, g.language, true⟩

/-- The loads of all files. -/
def task (g : Graph) : Task := .loads (g.files.map fun file => (g.loader, g.handed file))

/-- What has to be loaded: what the files refer to, and in turn what is served for it. -/
inductive Needed (g : Graph) : String → Prop where
  | handed {file : String × String} {id : String} (h : file ∈ g.files)
    (ht : id ∈ g.loader.targets (g.handed file)) : Needed g id
  | served {id id' text : String} (h : Needed g id) (hs : g.serve id = .ok text)
    (ht : id' ∈ g.loader.targets (g.fetched id text)) : Needed g id'

/-- A text that is served leads nowhere else. -/
def answer (g : Graph) (id : String) : FetchAnswer :=
  (g.serve id).map fun text => ⟨text, .unchanged⟩

/-- Every candidate is answered as its identifier is served. -/
def Serves (g : Graph) (answers : Answers) : Prop :=
  ∀ base (ref : Reference) a,
    answers ⟨ref.value, (g.loader.candidate base ref).relativePath⟩ a →
      a = g.answer (g.loader.candidate base ref).identifier

/-- How a load ends. -/
def verdict (g : Graph) (id : String) : LoadStatus :=
  match g.serve id with
  | .ok _ => .success
  | .error _ => .error

/-- What is registered for an identifier. -/
def registration (g : Graph) (id text : String) : Registration :=
  ⟨g.loader.declarationOf id, g.language, text⟩

/-- All that is needed has been loaded or has failed, and nothing else; what is
registered is what was served. -/
structure Loaded (g : Graph) (s : Service) (w : Workspace) : Prop where
  statuses : ∀ id status,
    w.registry.status? id = some status ↔ g.Needed id ∧ g.verdict id = status
  registered : ∃ s' regs, w.host = .memory s' ∧ s.Extends s' regs ∧
    ∀ reg, reg ∈ regs ↔ ∃ id text, g.Needed id ∧ g.serve id = .ok text ∧ text ≠ "" ∧
      reg = g.registration id text

/-! ### The invariant -/

/-- What a text refers to has a status. -/
def Seen (g : Graph) (w : Workspace) (request : LoadRequest) : Prop :=
  ∀ id ∈ g.loader.targets request, w.registry.status? id ≠ none

/-- A branch for a candidate of the loader. -/
def Sought (g : Graph) (b : Branch) : Prop :=
  ∃ base ref, b = ⟨g.loader, ref.value, g.loader.candidate base ref, g.language⟩

/-- A leaf of the loads: a fetch that is under way will be answered as is served. -/
def Expects (g : Graph) : Task → Prop
  | .load l request => ∃ file ∈ g.files, l = g.loader ∧ request = g.handed file
  | .queued b => g.Sought b
  | .fetching b a _ => g.Sought b ∧ a = g.answer b.identifier
  | _ => False

/-- What is known, while some leaves wait. -/
structure Known (g : Graph) (s : Service) (waiting : List Task) (w : Workspace) : Prop where
  needed : ∀ id, w.registry.status? id ≠ none → g.Needed id
  begun : ∀ file ∈ g.files, .load g.loader (g.handed file) ∈ waiting ∨ g.Seen w (g.handed file)
  success : ∀ id, w.registry.status? id = some .success →
    ∃ text, g.serve id = .ok text ∧ g.Seen w (g.fetched id text)
  error : ∀ id, w.registry.status? id = some .error → ∃ cause, g.serve id = .error cause
  registered : ∃ s' regs, w.host = .memory s' ∧ s.Extends s' regs ∧
    ∀ reg, reg ∈ regs ↔ ∃ id text, w.registry.status? id = some .success ∧
      g.serve id = .ok text ∧ text ≠ "" ∧ reg = g.registration id text

/-- The loads on their way. -/
structure Explored (g : Graph) (s : Service) (t : Task) (w : Workspace) : Prop where
  leaves : ∀ leaf ∈ t.leaves, g.Expects leaf
  owned : Owned t.inFlight w.registry
  loading : ∀ id ∈ t.inFlight, w.registry.status? id = some .loading
  known : g.Known s t.leaves w

variable {g : Graph} {s : Service} {w : Workspace} {waiting waiting' : List Task}

namespace Known

/-- A file that waits is expanded. -/
theorem load (hk : g.Known s waiting w) {file : String × String} (hf : file ∈ g.files)
    (rest : ∀ x ∈ waiting, x = .load g.loader (g.handed file) ∨ x ∈ waiting') :
    g.Known s waiting' (expand g.loader (g.handed file) w).2 := by
  have hb := begins_expand g.loader (g.handed file) w
  have hseen : ∀ {request}, g.Seen w request →
      g.Seen (expand g.loader (g.handed file) w).2 request := fun h id hid =>
    hb.ne_none (h id hid)
  refine ⟨fun id hs => ?_, fun file' hf' => ?_, fun id hs => ?_, fun id hs => ?_, ?_⟩
  · rcases hb.same id with he | ⟨hid, -, -⟩
    · exact hk.needed id (he ▸ hs)
    · exact .handed hf hid
  · rcases hk.begun file' hf' with hw | hs
    · rcases rest _ hw with he | hw
      · have hsame : g.handed file' = g.handed file := by simpa using he
        right
        rw [hsame]
        exact hb.seen
      · exact .inl hw
    · exact .inr (hseen hs)
  · obtain ⟨text, hserve, hs⟩ := hk.success id (hb.success_iff.1 hs)
    exact ⟨text, hserve, hseen hs⟩
  · exact hk.error id (hb.eq_error hs)
  · obtain ⟨s', regs, hhost, hext, hregs⟩ := hk.registered
    refine ⟨s', regs, ?_, hext, fun reg => ?_⟩
    · rw [host_expand, announce_eq_id _ _ rfl, ServiceHost.map_id, hhost]
    · simp only [hregs, hb.success_iff]

/-- A fetch fails. -/
theorem fail (hk : g.Known s waiting w) {id : String} {cause : FetchError}
    (hserve : g.serve id = .error cause) (own : w.registry.status? id = some .loading)
    (rest : ∀ file, .load g.loader (g.handed file) ∈ waiting →
      .load g.loader (g.handed file) ∈ waiting') :
    g.Known s waiting' { w with registry := w.registry.setStatus id .error } := by
  have hother : ∀ {other}, id ≠ other →
      (w.registry.setStatus id .error).status? other = w.registry.status? other := fun hne => by
    simp [hne]
  have hsuccess : ∀ {other}, (w.registry.setStatus id .error).status? other = some .success ↔
      w.registry.status? other = some .success := by
    intro other
    by_cases hid : id = other
    · subst hid
      simp [own]
    · rw [hother hid]
  have hseen : ∀ {request}, g.Seen w request →
      g.Seen { w with registry := w.registry.setStatus id .error } request := by
    intro request h other ho
    by_cases hid : id = other
    · simp [hid]
    · simpa [hid] using h other ho
  refine ⟨fun other hs => ?_, fun file hf => ?_, fun other hs => ?_, fun other hs => ?_, ?_⟩
  · by_cases hid : id = other
    · subst hid
      exact hk.needed id (by simp [own])
    · exact hk.needed other (hother hid ▸ hs)
  · rcases hk.begun file hf with hw | hs
    · exact .inl (rest file hw)
    · exact .inr (hseen hs)
  · obtain ⟨text, ht, hs⟩ := hk.success other (hsuccess.1 hs)
    exact ⟨text, ht, hseen hs⟩
  · by_cases hid : id = other
    · subst hid
      exact ⟨cause, hserve⟩
    · exact hk.error other (hother hid ▸ hs)
  · obtain ⟨s', regs, hhost, hext, hregs⟩ := hk.registered
    refine ⟨s', regs, hhost, hext, fun reg => ?_⟩
    simp only [hregs, hsuccess]

/-- A fetch brings a text, which is expanded once its identifier is marked. -/
theorem serve (hk : g.Known s waiting w) {id text : String} {marked : Workspace}
    (hserve : g.serve id = .ok text) (own : w.registry.status? id = some .loading)
    (hmarked : ∀ other, marked.registry.status? other =
      if other = id then some .success else w.registry.status? other)
    (host : marked.host = w.host)
    (rest : ∀ file, .load g.loader (g.handed file) ∈ waiting →
      .load g.loader (g.handed file) ∈ waiting') :
    g.Known s waiting' (expand g.loader (g.fetched id text) marked).2 := by
  have hb := begins_expand g.loader (g.fetched id text) marked
  have hsuccess : ∀ {other}, (expand g.loader (g.fetched id text) marked).2.registry.status?
      other = some .success ↔ other = id ∨ w.registry.status? other = some .success := by
    intro other
    rw [hb.success_iff, hmarked]
    by_cases hid : other = id <;> simp [hid]
  have hseen : ∀ {request}, g.Seen w request →
      g.Seen (expand g.loader (g.fetched id text) marked).2 request := by
    intro request h other ho
    refine hb.ne_none ?_
    rw [hmarked]
    split
    · simp
    · exact h other ho
  have hneeded : g.Needed id := hk.needed id (by simp [own])
  refine ⟨fun other hs => ?_, fun file hf => ?_, fun other hs => ?_, fun other hs => ?_, ?_⟩
  · rcases hb.same other with he | ⟨ho, -, -⟩
    · rw [he, hmarked] at hs
      by_cases hid : other = id
      · rw [hid]
        exact hneeded
      · rw [if_neg hid] at hs
        exact hk.needed other hs
    · exact .served hneeded hserve ho
  · rcases hk.begun file hf with hw | hs
    · exact .inl (rest file hw)
    · exact .inr (hseen hs)
  · rcases hsuccess.1 hs with rfl | hs
    · exact ⟨text, hserve, hb.seen⟩
    · obtain ⟨text', ht, hs⟩ := hk.success other hs
      exact ⟨text', ht, hseen hs⟩
  · have he := hb.eq_error hs
    rw [hmarked] at he
    by_cases hid : other = id
    · simp [hid] at he
    · rw [if_neg hid] at he
      exact hk.error other he
  · obtain ⟨s', regs, hhost, hext, hregs⟩ := hk.registered
    refine ⟨g.loader.announce (g.fetched id text) s',
      regs ++ g.loader.registrations (g.fetched id text), ?_, hext.announce _ _ ?_, fun reg => ?_⟩
    · rw [host_expand, host, hhost]
      rfl
    · intro reg hreg hname
      obtain ⟨other, text', hs, -, -, rfl⟩ := (hregs reg).1 hreg
      obtain rfl : other = id := g.loader.declarationOf_inj.1 hname
      simp [own] at hs
    · have hnew : reg ∈ g.loader.registrations (g.fetched id text) ↔
          text ≠ "" ∧ reg = g.registration id text := by
        by_cases ht : text = "" <;> simp [Loader.registrations, fetched, registration, ht]
      rw [List.mem_append, hregs, hnew]
      constructor
      · rintro (⟨other, text', hs, ht, hne, rfl⟩ | ⟨hne, rfl⟩)
        · exact ⟨other, text', hsuccess.2 (.inr hs), ht, hne, rfl⟩
        · exact ⟨id, text, hsuccess.2 (.inl rfl), hserve, hne, rfl⟩
      · rintro ⟨other, text', hs, ht, hne, rfl⟩
        rcases hsuccess.1 hs with rfl | hs
        · obtain rfl : text' = text := Except.ok.inj (ht.symm.trans hserve)
          exact .inr ⟨hne, rfl⟩
        · exact .inl ⟨other, text', hs, ht, hne, rfl⟩

end Known

/-! ### Steps -/

variable {answers : Answers} {e : Event} {t t' : Task} {w' : Workspace}

theorem sought_of_mem_expand {request : LoadRequest} {x : Task}
    (hl : request.language = g.language) (hx : x ∈ (expand g.loader request w).1.leaves) :
    g.Expects x := by
  rw [leaves_expand] at hx
  obtain ⟨b, hb, rfl⟩ := List.mem_map.1 hx
  obtain ⟨p, hp, rfl⟩ := mem_dispatch hb
  rw [hl]
  unfold Loader.dependencies at hp
  split at hp
  · simp at hp
  · unfold Loader.resolve at hp
    split at hp
    · obtain ⟨ref, -, rfl⟩ := List.mem_map.1 hp
      exact ⟨request.identifier, ref, rfl⟩
    · simp at hp

theorem resolved_unchanged (b : Branch) (text : String) :
    b.resolved ⟨text, .unchanged⟩ = b.identifier := rfl

theorem resolved_of_answer {b : Branch} {fetched : Fetched}
    (h : g.answer b.identifier = .ok fetched) : b.resolved fetched = b.identifier := by
  cases hs : g.serve b.identifier with
  | error cause => simp [answer, hs, Except.map] at h
  | ok text =>
    obtain rfl : ⟨text, .unchanged⟩ = fetched := by simpa [answer, hs, Except.map] using h
    exact resolved_unchanged b text

/-- An answer that is expected brings a text for the identifier itself, or fails. -/
theorem receive_answer (b : Branch) (hb : g.Sought b) (w : Workspace) :
    (∃ cause, g.serve b.identifier = .error cause ∧ b.receive (g.answer b.identifier) w =
      (.settled (.error ⟨b.specifier, b.identifier, cause⟩),
        { w with registry := w.registry.setStatus b.identifier .error })) ∨
    ∃ text, g.serve b.identifier = .ok text ∧ b.receive (g.answer b.identifier) w =
      expand g.loader (g.fetched b.identifier text) (b.noted ⟨text, .unchanged⟩ w) := by
  obtain ⟨base, ref, rfl⟩ := hb
  set b : Branch := ⟨g.loader, ref.value, g.loader.candidate base ref, g.language⟩
  cases hs : g.serve b.identifier with
  | error cause => exact .inl ⟨cause, rfl, by simp [answer, hs, Except.map, Branch.receive]⟩
  | ok text =>
    refine .inr ⟨text, rfl, ?_⟩
    have ha : b.Admits ⟨text, .unchanged⟩ w.registry := .inl (resolved_unchanged b text)
    have hanswer : g.answer b.identifier = .ok ⟨text, .unchanged⟩ := by
      simp [answer, hs, Except.map]
    rw [hanswer, receive_of_admits ha]
    rfl

theorem Expects.move {leaf new : Task} (hserves : g.Serves answers)
    (h : Move answers e leaf w new w') (hl : g.Expects leaf) : ∀ x ∈ new.leaves, g.Expects x := by
  intro x hx
  cases h with
  | load l request =>
    obtain ⟨file, -, rfl, rfl⟩ := hl
    exact sought_of_mem_expand rfl hx
  | start b delivery now _ ha =>
    obtain rfl := List.mem_singleton.1 hx
    obtain ⟨base, ref, rfl⟩ := hl
    exact ⟨⟨base, ref, rfl⟩, hserves base ref _ ha⟩
  | receive b answer due =>
    obtain ⟨hb, rfl⟩ := hl
    rcases receive_answer b hb w with ⟨cause, -, hr⟩ | ⟨text, -, hr⟩
    · rw [hr] at hx
      simp at hx
    · rw [hr] at hx
      exact sought_of_mem_expand rfl hx

namespace Explored

theorem step (hserves : g.Serves answers) (h : Step answers e t w t' w')
    (hx : g.Explored s t w) : g.Explored s t' w' := by
  have hr : ∀ id, e.redirect? = some id → id ∉ t.inFlight := by
    intro id he
    obtain ⟨b, fetched, rfl, hne, rfl⟩ := Event.redirect?_eq_some.1 he
    obtain ⟨⟨due, hleaf⟩, -⟩ := h.receive_inv
    obtain ⟨-, hanswer⟩ := hx.leaves _ hleaf
    exact absurd (resolved_of_answer hanswer.symm) hne
  refine ⟨h.forall_leaves (fun hm hl => Expects.move hserves hm hl) hx.leaves, h.owned hx.owned,
    (h.keepsLaw hx.owned.nodup hx.loading hr).1, ?_⟩
  obtain ⟨before, leaf, after, new, hm, ht, ht'⟩ := h.splice
  have hleaf : g.Expects leaf := hx.leaves leaf (by simp [ht])
  have hk := hx.known
  rw [ht] at hk
  rw [ht']
  have hrest : ∀ x ∈ before ++ leaf :: after, x = leaf ∨ x ∈ before ++ new.leaves ++ after := by
    simp only [List.mem_append, List.mem_cons]
    rintro x (hx | rfl | hx)
    · exact .inr (.inl (.inl hx))
    · exact .inl rfl
    · exact .inr (.inr hx)
  cases hm with
  | load l request =>
    obtain ⟨file, hf, rfl, rfl⟩ := hleaf
    exact hk.load hf hrest
  | start b delivery now _ _ =>
    exact ⟨hk.needed, fun file hf => (hk.begun file hf).imp_left fun hw =>
      (hrest _ hw).resolve_left (by simp), hk.success, hk.error, hk.registered⟩
  | receive b answer due =>
    obtain ⟨hb, rfl⟩ := hleaf
    have hmem : .fetching b (g.answer b.identifier) due ∈ t.leaves := by simp [ht]
    have own : w.registry.status? b.identifier = some .loading :=
      hx.loading _ (Task.mem_inFlight hmem rfl)
    have rest : ∀ file, .load g.loader (g.handed file) ∈
        before ++ .fetching b (g.answer b.identifier) due :: after →
        .load g.loader (g.handed file) ∈
          before ++ (b.receive (g.answer b.identifier) w).1.leaves ++ after := fun file hw =>
      (hrest _ hw).resolve_left (by simp)
    rcases receive_answer b hb w with ⟨cause, hserve, hr⟩ | ⟨text, hserve, hr⟩
    · rw [hr] at rest ⊢
      exact hk.fail hserve own rest
    · rw [hr] at rest ⊢
      refine hk.serve hserve own (fun other => ?_) rfl rest
      simp [status?_noted, resolved_unchanged]

theorem of_fresh (fresh : ∀ id, w.registry.status? id = none) (host : w.host = .memory s) :
    g.Explored s g.task w := by
  have hflight : g.task.inFlight = [] := Task.inFlight_loads _
  refine ⟨fun leaf hleaf => ?_, ?_, ?_, ⟨fun id hs => absurd (fresh id) hs, fun file hf => ?_,
    fun id hs => ?_, fun id hs => ?_, ⟨s, [], host, .refl s, ?_⟩⟩⟩
  · rw [task, Task.leaves_loads, List.map_map] at hleaf
    obtain ⟨file, hf, rfl⟩ := List.mem_map.1 hleaf
    exact ⟨file, hf, rfl, rfl⟩
  · rw [hflight]
    exact .of_no_loading fun id => by simp [fresh]
  · simp [hflight]
  · left
    rw [task, Task.leaves_loads, List.map_map]
    exact List.mem_map_of_mem hf
  · simp [fresh] at hs
  · simp [fresh] at hs
  · simp [fresh]

theorem ne_none_of_needed (hx : g.Explored s t w) (settled : t.leaves = []) {id : String}
    (h : g.Needed id) : w.registry.status? id ≠ none := by
  -- on the need: what served an identifier has been expanded, so what it refers to is seen
  induction h with
  | handed hf ht =>
    rcases hx.known.begun _ hf with hw | hs
    · simp [settled] at hw
    · exact hs _ ht
  | @served id id' text _ hs ht ih =>
    cases hst : w.registry.status? id with
    | none => exact absurd hst ih
    | some status =>
      cases status with
      | loading =>
        have hid := hx.owned.loading id hst
        simp [Task.inFlight, settled] at hid
      | success =>
        obtain ⟨text', hs', hseen⟩ := hx.known.success id hst
        obtain rfl : text' = text := Except.ok.inj (hs'.symm.trans hs)
        exact hseen _ ht
      | error =>
        obtain ⟨cause, hs'⟩ := hx.known.error id hst
        rw [hs] at hs'
        cases hs'

theorem verdict_eq (hx : g.Explored s t w) (settled : t.leaves = []) {id : String}
    {status : LoadStatus} (hs : w.registry.status? id = some status) : g.verdict id = status := by
  cases status with
  | loading =>
    have hid := hx.owned.loading id hs
    simp [Task.inFlight, settled] at hid
  | success =>
    obtain ⟨text, ht, -⟩ := hx.known.success id hs
    simp [verdict, ht]
  | error =>
    obtain ⟨cause, hc⟩ := hx.known.error id hs
    simp [verdict, hc]

/-- Once nothing is left to do, all that is needed has been done. -/
theorem loaded (hx : g.Explored s t w) (settled : t.leaves = []) : g.Loaded s w := by
  have hstatus : ∀ id status,
      w.registry.status? id = some status ↔ g.Needed id ∧ g.verdict id = status := by
    intro id status
    constructor
    · intro hs
      exact ⟨hx.known.needed id (by simp [hs]), hx.verdict_eq settled hs⟩
    · rintro ⟨hn, rfl⟩
      obtain ⟨status, hs⟩ := Option.ne_none_iff_exists'.1 (hx.ne_none_of_needed settled hn)
      rw [hs, hx.verdict_eq settled hs]
  obtain ⟨s', regs, hhost, hext, hregs⟩ := hx.known.registered
  refine ⟨hstatus, s', regs, hhost, hext, fun reg => ?_⟩
  rw [hregs]
  refine exists_congr fun id => exists_congr fun text => ?_
  rw [hstatus, and_assoc]
  refine and_congr_right fun _ => ⟨fun h => h.2, fun h => ⟨?_, h⟩⟩
  simp [verdict, h.1]

end Explored

/-- What is loaded in the end is determined by the graph. -/
theorem Loaded.unique (h : g.Loaded s w) (h' : g.Loaded s w') :
    (∀ id, w.registry.status? id = w'.registry.status? id) ∧
      ∀ name language, w.host.service.declaration? name language =
        w'.host.service.declaration? name language := by
  refine ⟨fun id => Option.ext fun status => ?_, fun name language => ?_⟩
  · rw [h.statuses, h'.statuses]
  · obtain ⟨s₁, regs, hhost, hext, hregs⟩ := h.registered
    obtain ⟨s₂, regs', hhost', hext', hregs'⟩ := h'.registered
    have hsame : ∀ reg, reg ∈ regs ↔ reg ∈ regs' := fun reg => by rw [hregs, hregs']
    rw [hhost, hhost']
    change s₁.declaration? name language = s₂.declaration? name language
    by_cases hname : ∃ reg ∈ regs, reg.identifier = name ∧ reg.language = language
    · obtain ⟨reg, hreg, rfl, rfl⟩ := hname
      rw [hext.counts reg hreg, hext'.counts reg ((hsame reg).1 hreg)]
    · have hother : ∀ reg ∈ regs, reg.identifier = name → reg.language ≠ language :=
        fun reg hreg hn hl => hname ⟨reg, hreg, hn, hl⟩
      rw [hext.others name language hother,
        hext'.others name language fun reg hreg => hother reg ((hsame reg).2 hreg)]

end Graph

/-- **The order does not matter.** However the loads of some files overlap, and in
whatever order their fetches are answered, once all have settled exactly what is
needed has a status and a declaration, as it is served; and another run comes to the
same. -/
theorem loaded_of_settled {g : Graph} {answers : Answers} {ms : List Moment} {t : Task}
    {w w' : Workspace} {s : Service} (hserves : g.Serves answers)
    (fresh : ∀ id, w.registry.status? id = none) (host : w.host = .memory s)
    (h : Run answers ms g.task w t w') (settled : t.outcome?.isSome) :
    g.Loaded s w' ∧ ∀ ms₂ t₂ w₂, Run answers ms₂ g.task w t₂ w₂ → t₂.outcome?.isSome →
      (∀ id, w'.registry.status? id = w₂.registry.status? id) ∧
        ∀ name language, w'.host.service.declaration? name language =
          w₂.host.service.declaration? name language := by
  have hloaded : ∀ {ms t w'}, Run answers ms g.task w t w' → t.outcome?.isSome →
      g.Loaded s w' := fun h hs =>
    (h.invariant (P := g.Explored s) (Graph.Explored.step hserves) (.of_fresh fresh host)).loaded
      ((Task.isSome_outcome? _).1 hs)
  exact ⟨hloaded h settled, fun ms₂ t₂ w₂ h₂ hs => (hloaded h settled).unique (hloaded h₂ hs)⟩

/-- Two files, and everywhere a text that imports what stands beside it. -/
def besides : Graph :=
  ⟨{ fetches := true }, .typescript, [("/a", importBeside), ("/b/c", importBeside)],
    fun _ => .ok importBeside⟩

/-- What the text refers to stands beside it. -/
theorem dependencies_importBeside (identifier : String) (language : Language)
    (declaration : Bool) :
    besides.loader.dependencies ⟨importBeside, identifier, language, declaration⟩ =
      [(⟨"./x", 6, 11⟩, besides.loader.candidate identifier ⟨"./x", 6, 11⟩)] := by
  obtain ⟨tree, hp, hr⟩ := parse_importBeside
  have hp' : besides.loader.parse importBeside = some tree := hp
  have hf : besides.loader.fetches = true := rfl
  simp [Loader.dependencies, hp', Loader.resolve, hf, hr]

/-- A module beside which it stands itself has nothing more to load. -/
theorem leaves_receive_importBeside {b : Branch} (hl : b.loader = besides.loader)
    (hself : (branchBeside b.identifier).identifier = b.identifier) (w : Workspace) :
    (b.receive (.ok ⟨importBeside, .unchanged⟩) w).1.leaves = [] := by
  rw [receive_of_admits (.inl (Graph.resolved_unchanged b importBeside)), leaves_expand, hl,
    Graph.resolved_unchanged, dependencies_importBeside, dispatch_cons_of_blocked]
  · rfl
  · rw [Registry.mayLoad_eq_false_iff, status?_noted]
    right
    exact if_pos (.inl hself)

/-- The modules beside the files are loaded and registered, though each refers to
itself. -/
theorem loaded_importBeside : ∃ ms t w s,
    Run (fun _ a => a = .ok ⟨importBeside, .unchanged⟩) ms besides.task {} t w ∧
    t.outcome?.isSome ∧ w.registry.status? "/x" = some .success ∧
    w.registry.status? "/b/x" = some .success ∧ w.host = .memory s ∧
    ⟨"/x.d.ts", .typescript, importBeside⟩ ∈ s.history ∧
    ⟨"/b/x.d.ts", .typescript, importBeside⟩ ∈ s.history := by
  obtain ⟨ms, w, h, -⟩ := exists_run_importBeside
    (fun _ a => a = .ok ⟨importBeside, .unchanged⟩) (.ok ⟨importBeside, .unchanged⟩)
    (.ok ⟨importBeside, .unchanged⟩) (w := {}) (fun _ => rfl) rfl rfl
  have hrun := h.trans (run_receive (branchBeside "/a") (branchBeside "/b/c")
    (.ok ⟨importBeside, .unchanged⟩) (.ok ⟨importBeside, .unchanged⟩) w _)
  have hsettled : (withinLoads ((branchBeside "/a").receive (.ok ⟨importBeside, .unchanged⟩)
      ((branchBeside "/b/c").receive (.ok ⟨importBeside, .unchanged⟩) w).2).1
      ((branchBeside "/b/c").receive (.ok ⟨importBeside, .unchanged⟩) w).1).outcome?.isSome := by
    rw [Task.isSome_outcome?, leaves_withinLoads,
      leaves_receive_importBeside rfl (by decide +kernel),
      leaves_receive_importBeside rfl (by decide +kernel), List.append_nil]
  have hserves : besides.Serves fun _ a => a = .ok ⟨importBeside, .unchanged⟩ :=
    fun _ _ _ ha => ha
  obtain ⟨hloaded, -⟩ := loaded_of_settled (g := besides) (s := {}) hserves (fun _ => rfl) rfl
    hrun hsettled
  have hx : besides.Needed "/x" := by
    have hf : ("/a", importBeside) ∈ besides.files := List.mem_cons_self
    refine .handed hf ?_
    rw [Loader.targets, Graph.handed, dependencies_importBeside, ← identifier_branchBeside_top]
    exact List.mem_singleton_self _
  have hy : besides.Needed "/b/x" := by
    have hf : ("/b/c", importBeside) ∈ besides.files := List.mem_cons_of_mem _ List.mem_cons_self
    refine .handed hf ?_
    rw [Loader.targets, Graph.handed, dependencies_importBeside, ← identifier_branchBeside_below]
    exact List.mem_singleton_self _
  obtain ⟨s, regs, hhost, hext, hregs⟩ := hloaded.registered
  have hhistory : s.history = regs := hext.history
  refine ⟨_, _, _, s, hrun, hsettled, (hloaded.statuses "/x" .success).2 ⟨hx, rfl⟩,
    (hloaded.statuses "/b/x" .success).2 ⟨hy, rfl⟩, hhost, ?_, ?_⟩
  · rw [hhistory, hregs]
    exact ⟨"/x", importBeside, hx, rfl, by decide, by decide⟩
  · rw [hhistory, hregs]
    exact ⟨"/b/x", importBeside, hy, rfl, by decide, by decide⟩

end ModuleGraph
