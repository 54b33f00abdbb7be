/-
# What is on record of a file that was handed over

A text that is handed over is recorded under its identifier, and so is a text that was
fetched, under the identifier that it is loaded under: the registry does not tell the one
from the other, and the last one counts. A file that is open and refers, through others,
to itself is fetched, since no status stands for what was handed over, and what is on
record then is the text that was fetched (`not_holds_handed`).

Nothing else takes the place of a text that was handed over, and this happens to an
identifier once at most, as no text is admitted to it twice (`holds_handed`).

Key definitions: `Registry.Holds`, `Moment.fetched?`, `Moment.Supplants`.
Key theorems: `Step.holds`, `Run.holds`, `holds_handed`, `not_holds_handed`.
-/
import ModuleGraph.Proofs.Records

namespace ModuleGraph

/-- What is recorded under the identifier of a request is its text: the tree, with its
references and what they resolve to. -/
structure Registry.Holds (r : Registry) (l : Loader) (request : LoadRequest) (tree : Json) :
    Prop where
  parsed : l.parse request.text = some tree
  ast : r.tree? request.identifier = some tree
  info : ∃ stamp, r.fileInfo? request.identifier =
    some ⟨tree, stamp, references tree, l.targets request⟩

variable {answers : Answers} {e : Event} {t t' : Task} {w w' : Workspace} {ms : List Moment}
  {l : Loader} {request : LoadRequest} {tree : Json} {calls : List (Loader × LoadRequest)}

/-! ### Steps and runs -/

theorem Moment.recorded?_of_expands {m : Moment} (he : m.expands? = some (l, request))
    (hp : l.parse request.text = some tree) : m.recorded? = some (request.identifier,
      ⟨tree, m.workspace.registry.recorded, references tree, l.targets request⟩) :=
  recorded?_eq_some.2 ⟨l, request, he, by rw [Loader.info?, hp]; rfl, rfl⟩

/-- A text that is expanded is on record. -/
theorem Step.holds (h : Step answers e t w t' w')
    (he : (⟨e, t, w⟩ : Moment).expands? = some (l, request))
    (hp : l.parse request.text = some tree) : w'.registry.Holds l request tree := by
  have hinfo := h.fileInfo?_eq request.identifier
  rw [Moment.recorded?_of_expands he hp] at hinfo
  simp only [if_true] at hinfo
  exact ⟨hp, by rw [Registry.tree?, hinfo]; rfl, _, hinfo⟩

/-- What is on record under an identifier stays until something is recorded under it. -/
theorem Run.fileInfo?_eq {id : String} (h : Run answers ms t w t' w') :
    (∀ m ∈ ms, ∀ info, m.recorded? ≠ some (id, info)) →
      w'.registry.fileInfo? id = w.registry.fileInfo? id := by
  induction h with
  | refl => exact fun _ => rfl
  | @head e ms t t₁ t' w w₁ w' hs _ ih =>
    intro hnone
    rw [ih fun m hm => hnone m (List.mem_cons_of_mem _ hm), hs.fileInfo?_eq]
    cases hr : (⟨e, t, w⟩ : Moment).recorded? with
    | none => rfl
    | some p =>
      obtain ⟨other, info⟩ := p
      have hne : other ≠ id := by
        rintro rfl
        exact hnone _ List.mem_cons_self info hr
      simp [hne]

theorem Run.holds (h : Run answers ms t w t' w') (hold : w.registry.Holds l request tree)
    (hnone : ∀ m ∈ ms, ∀ info, m.recorded? ≠ some (request.identifier, info)) :
    w'.registry.Holds l request tree := by
  have hinfo := h.fileInfo?_eq hnone
  exact ⟨hold.parsed, by rw [Registry.tree?, hinfo]; exact hold.ast, by rw [hinfo]; exact hold.info⟩

/-! ### Fetched texts -/

namespace Moment

/-- The load of a text that was fetched. -/
def fetched? (m : Moment) : Option (Loader × LoadRequest) :=
  m.admitted?.map fun p => (p.1.loader, p.1.continuation p.2)

/-- At a moment a text that was fetched is recorded under an identifier. -/
structure Supplants (m : Moment) (id : String) (l : Loader) (request : LoadRequest)
    (tree : Json) : Prop where
  fetched : m.fetched? = some (l, request)
  identifier : request.identifier = id
  parsed : l.parse request.text = some tree

theorem expands?_cases {m : Moment} (h : m.expands? = some (l, request)) :
    m.event = .load l request ∨ m.fetched? = some (l, request) := by
  cases he : m.event with
  | load l' request' =>
    left
    simpa [expands?, he] using h
  | start b a => simp [expands?, he, admitted?] at h
  | receive b a =>
    right
    simpa [expands?, he, fetched?] using h

theorem expands?_of_fetched? {m : Moment} (h : m.fetched? = some (l, request)) :
    m.expands? = some (l, request) := by
  obtain ⟨p, hp, hl⟩ := Option.map_eq_some_iff.1 h
  have he := (admitted?_eq_some.1 hp).1
  simp only [expands?, he, hp, Option.map_some]
  exact congrArg some hl

/-- A moment at which a fetched text is loaded under an identifier admits it there. -/
theorem exists_admitted {m : Moment} (h : m.fetched? = some (l, request)) :
    ∃ b fetched, m.event = .receive b (.ok fetched) ∧ b.Admits fetched m.workspace.registry ∧
      b.resolved fetched = request.identifier := by
  obtain ⟨⟨b, fetched⟩, hp, hl⟩ := Option.map_eq_some_iff.1 h
  obtain ⟨he, ha⟩ := admitted?_eq_some.1 hp
  cases hl
  exact ⟨b, fetched, he, ha, rfl⟩

/-- What is recorded is a text that is handed over, or one that was fetched. -/
theorem recorded?_cases {m : Moment} {id : String} {info : FileInfo}
    (h : m.recorded? = some (id, info)) :
    (∃ l request, m.event = .load l request ∧ request.identifier = id ∧
      l.parse request.text ≠ none) ∨ ∃ l request tree, m.Supplants id l request tree := by
  obtain ⟨l, request, he, hi, hid⟩ := recorded?_eq_some.1 h
  obtain ⟨tree, hp, -⟩ := Option.map_eq_some_iff.1 hi
  rcases expands?_cases he with he | he
  · exact .inl ⟨l, request, he, hid, by simp [hp]⟩
  · exact .inr ⟨l, request, tree, he, hid, hp⟩

end Moment

/-- Nothing that was fetched is recorded under what is done with. -/
theorem Run.not_supplants {id : String} (h : Run answers ms t w t' w') (hf : Finished id t w) :
    ∀ m ∈ ms, ∀ l request tree, ¬ m.Supplants id l request tree := by
  intro m hm l request tree hs
  obtain ⟨b, fetched, he, ha, hid⟩ := Moment.exists_admitted hs.fetched
  exact h.not_mem_admitted hf
    (mem_admitted.2 ⟨m, hm, b, fetched, he, ha, hid.trans hs.identifier⟩)

/-- The identifier under which a fetched text is loaded is done with from then on. -/
theorem Step.finished_of_fetched? {others : List String} (h : Step answers e t w t' w')
    (ho : Owned (t.inFlight ++ others) w.registry)
    (hf : (⟨e, t, w⟩ : Moment).fetched? = some (l, request)) :
    Finished request.identifier t' w' := by
  obtain ⟨b, fetched, rfl, ha, hid⟩ := Moment.exists_admitted hf
  exact h.finished_of_receive ho (.inr ⟨ha, hid.symm⟩)

/-- What was admitted in a run is done with at its end. -/
theorem Run.finished_of_mem_admitted {id : String} {others : List String}
    (h : Run answers ms t w t' w') (ho : Owned (t.inFlight ++ others) w.registry)
    (hid : id ∈ admitted ms) : Finished id t' w' := by
  obtain ⟨m, hm, b, fetched, he, ha, rfl⟩ := mem_admitted.1 hid
  obtain ⟨before, after, rfl⟩ := List.append_of_mem hm
  obtain ⟨t₁, w₁, hbefore, hstep, hafter⟩ := h.split
  rw [he] at hstep
  exact hafter.finished (hstep.finished_of_receive (hbefore.owned_beside ho) (.inr ⟨ha, rfl⟩))

/-! ### Texts that are handed over -/

/-- **Whose text is on record.** However the calls overlap, under an identifier for which
texts have been handed over the last of them is on record, unless a text that was fetched
has been recorded under it since; then it is that one. Where one was loaded under it
before, this does not happen any more. -/
theorem holds_handed {before after : List Moment} {m : Moment}
    (h : Run answers (before ++ m :: after) (.loads calls) w t' w')
    (handed : m.event = .load l request) (parsed : l.parse request.text = some tree)
    (last : ∀ m' ∈ after, ∀ l' request', m'.event = .load l' request' →
      request'.identifier = request.identifier → l'.parse request'.text = none) :
    ((∀ m' ∈ after, ∀ l' request' tree',
        ¬ m'.Supplants request.identifier l' request' tree') →
      w'.registry.Holds l request tree) ∧
    (∀ m' ∈ after, ∀ l' request' tree', m'.Supplants request.identifier l' request' tree' →
      w'.registry.Holds l' request' tree') ∧
    (request.identifier ∈ admitted before → w'.registry.Holds l request tree) := by
  obtain ⟨others, ho⟩ := exists_owned_loads calls w
  obtain ⟨t₁, w₁, hbefore, hstep, hafter⟩ := h.split
  have ho₁ := hstep.owned_beside (hbefore.owned_beside ho)
  -- of what is recorded under the identifier later on, nothing is handed over
  have hrecorded : ∀ m' ∈ after, ∀ info, m'.recorded? = some (request.identifier, info) →
      ∃ l' request' tree', m'.Supplants request.identifier l' request' tree' := by
    intro m' hm' info hr
    refine (Moment.recorded?_cases hr).resolve_left ?_
    rintro ⟨l', request', he, hid, hp⟩
    exact hp (last m' hm' l' request' he hid)
  have hhanded : (∀ m' ∈ after, ∀ l' request' tree',
      ¬ m'.Supplants request.identifier l' request' tree') →
        w'.registry.Holds l request tree := by
    intro hnone
    have hexpands : m.expands? = some (l, request) := by simp only [Moment.expands?, handed]
    refine hafter.holds (hstep.holds hexpands parsed) fun m' hm' info hr => ?_
    obtain ⟨l', request', tree', hs⟩ := hrecorded m' hm' info hr
    exact hnone m' hm' l' request' tree' hs
  refine ⟨hhanded, fun m' hm' l' request' tree' hs => ?_, fun hadmitted => hhanded ?_⟩
  · obtain ⟨between, rest, rfl⟩ := List.append_of_mem hm'
    obtain ⟨t₂, w₂, hbetween, hstep₂, hrest⟩ := hafter.split
    have hdone := hstep₂.finished_of_fetched? (hbetween.owned_beside ho₁) hs.fetched
    refine hrest.holds (hstep₂.holds (Moment.expands?_of_fetched? hs.fetched) hs.parsed)
      fun m'' hm'' info hr => ?_
    rw [hs.identifier] at hdone hr
    obtain ⟨l'', request'', tree'', hs'⟩ := hrecorded m'' (by simp [hm'']) info hr
    exact hrest.not_supplants hdone m'' hm'' l'' request'' tree'' hs'
  · have hdone := hstep.finished (hbefore.finished_of_mem_admitted ho hadmitted)
    exact hafter.not_supplants hdone

/-! ### A file that refers to itself through another -/

/-- What the file refers to refers back to it, and something else is served for it. -/
def importedBack : Table String CatalogModule :=
  [("/x", { text := "import'./a'" }), ("/a", { text := "1" })]

/-- The load of the file, once it has been handed over. -/
def loadedBack : Task × Workspace :=
  (settle (ModuleSource.catalog importedBack).fetcher 9 0
    (.load { fetches := true } (topRequest importBeside .typescript)) {}).2

/-- The next load of the same text: there is nothing left to fetch. -/
def loadedAgain : Task × Workspace :=
  expand { fetches := true } (topRequest importBeside .typescript) loadedBack.2

theorem loadedBack_spec : loadedBack.1.outcome? = some (.ok ()) ∧
    (loadedBack.2.registry.tree? "/a").map references = some [] ∧
    loadedAgain.1.outcome? = some (.ok ()) := by
  decide +kernel

/-- In between, the text that was fetched is on record; when the file is handed over once
more its own text is. -/
theorem holds_handed_again : ∃ tree before m t' w',
    Loader.parse { fetches := true } importBeside = some tree ∧
    Run (ModuleSource.catalog importedBack).fetcher.answers (before ++ [m])
      (.loads [({ fetches := true }, topRequest importBeside .typescript),
        ({ fetches := true }, topRequest importBeside .typescript)]) {} t' w' ∧
    t'.outcome? = some (.ok ()) ∧ m.workspace.registry.tree? "/a" ≠ some tree ∧
    w'.registry.Holds { fetches := true } (topRequest importBeside .typescript) tree := by
  obtain ⟨tree, parsed, single⟩ := parse_importBeside
  obtain ⟨ok, hfetched, ok'⟩ := loadedBack_spec
  obtain ⟨ms, hfirst⟩ : Leads (ModuleSource.catalog importedBack).fetcher.answers
    (.load { fetches := true } (topRequest importBeside .typescript)) {} loadedBack.1
      loadedBack.2 := leads_settle _ _ _ _ _
  have hsecond : Run (ModuleSource.catalog importedBack).fetcher.answers _ _ _ _ _ :=
    .head (.joined [loadedBack.1] [] (.move
      (.load { fetches := true } (topRequest importBeside .typescript) loadedBack.2)))
      (.refl _ _)
  have hrun : Run (ModuleSource.catalog importedBack).fetcher.answers _
    (.loads [({ fetches := true }, topRequest importBeside .typescript),
      ({ fetches := true }, topRequest importBeside .typescript)]) {} _ _ :=
    (hfirst.joined [] [_]).trans hsecond
  refine ⟨tree, _, _, _, _, parsed, hrun, ?_, fun htree => ?_,
    (holds_handed hrun rfl parsed (by simp)).1 (by simp)⟩
  · change (Task.joined [loadedBack.1, loadedAgain.1]).outcome? = some (.ok ())
    exact Task.outcome?_joined_ok (by simp [ok, ok'])
  · have hsame : loadedBack.2.registry.tree? "/a" = some tree := htree
    rw [hsame, Option.map_some, single] at hfetched
    cases hfetched

/-- The file is handed over, and once nothing is under way the text that was fetched for it
is on record. -/
theorem not_holds_handed : ∃ tree ms t w,
    Loader.parse { fetches := true } importBeside = some tree ∧
    references tree = [⟨"./x", 6, 11⟩] ∧
    Run (ModuleSource.catalog importedBack).fetcher.answers ms
      (loadAlone importBeside .typescript) {} t w ∧
    t.outcome? = some (.ok ()) ∧ t.inFlight = [] ∧ w.registry.tree? "/a" ≠ some tree ∧
    (w.registry.fileInfo? "/a").map FileInfo.imports = some [] := by
  obtain ⟨tree, parsed, single⟩ := parse_importBeside
  obtain ⟨ms, h⟩ := exists_run_scheduled importedBack importBeside .typescript {}
  obtain ⟨ok, idle, hfetched, himports⟩ :
      (scheduled importedBack importBeside .typescript {}).1.outcome? = some (.ok ()) ∧
      (scheduled importedBack importBeside .typescript {}).1.inFlight = [] ∧
      ((scheduled importedBack importBeside .typescript {}).2.registry.tree? "/a").map
        references = some [] ∧
      ((scheduled importedBack importBeside .typescript {}).2.registry.fileInfo? "/a").map
        FileInfo.imports = some [] := by
    decide +kernel
  refine ⟨tree, ms, _, _, parsed, single, h, ok, idle, fun htree => ?_, himports⟩
  rw [htree, Option.map_some, single] at hfetched
  cases hfetched

end ModuleGraph
