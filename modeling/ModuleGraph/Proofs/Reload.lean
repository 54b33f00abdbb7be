/-
# Loading a file again

A load fetches again what has failed before, where it comes across it: in its own text,
and in the texts that it fetches. A module that is loaded already it passes over, and so
all below it. What has failed there stays as it is, and does not count against the load:
`Ok` means that all is loaded to which the recorded files lead exactly if none of those
that the load did not walk refers to something failed that it did not fetch
(`reached_loaded_iff`).

This is of modules that stand where they are looked for: a redirection marks what it
leads to as loaded without a fetch for it.

Key definitions: `Registry.Refers`.
Key theorems: `Run.status?_eq_of_not_begun`, `Run.success_of_begun`, `reached_loaded_iff`.
-/
import Mathlib.Logic.Relation
import ModuleGraph.Proofs.FewModules
import ModuleGraph.Proofs.Records

namespace ModuleGraph

variable {answers : Answers} {t t' : Task} {w w' : Workspace} {ms : List Moment} {id : String}
  {calls : List (Loader × LoadRequest)}

/-! ### What a run changes -/

/-- A status changes at the moments at which an event says something of the identifier,
or its load begins. -/
theorem Run.status?_eq_of_unmarked (h : Run answers ms t w t' w') :
    (∀ m ∈ ms, m.event.mark? id = none ∧ id ∉ m.dispatched) →
      w'.registry.status? id = w.registry.status? id := by
  induction h with
  | refl => exact fun _ => rfl
  | @head e ms t t₁ t' w w₁ w' hs _ ih =>
    intro hm
    obtain ⟨hmark, hdisp⟩ := hm _ List.mem_cons_self
    rw [ih fun m hm' => hm m (List.mem_cons_of_mem _ hm'), hs.status?_eq, if_neg hdisp]
    simp only [hmark, Option.none_or]

/-- Where modules stand where they are looked for, an answer stays with its branch. -/
theorem Run.resolved_eq {m : Moment} {b : Branch} {fetched : Fetched}
    (unchanged : ∀ request fetched, answers request (.ok fetched) → fetched.hint = .unchanged)
    (h : Run answers ms (.loads calls) w t' w') (hm : m ∈ ms)
    (he : m.event = .receive b (.ok fetched)) : b.resolved fetched = b.identifier := by
  rw [Branch.resolved, unchanged _ _ (h.receives_answer m hm b _ he).2]
  rfl

/-- Where modules stand where they are looked for, the status of what does not begin to
load stays. -/
theorem Run.status?_eq_of_not_begun
    (unchanged : ∀ request fetched, answers request (.ok fetched) → fetched.hint = .unchanged)
    (h : Run answers ms (.loads calls) w t' w') (hid : id ∉ begunIn ms) :
    w'.registry.status? id = w.registry.status? id := by
  refine h.status?_eq_of_unmarked fun m hm => ⟨?_, fun hd => hid (List.mem_flatMap.2 ⟨m, hm, hd⟩)⟩
  by_contra hmark
  obtain ⟨status, hmark⟩ := Option.ne_none_iff_exists'.1 hmark
  cases status with
  | loading => exact Event.mark?_ne_loading _ _ hmark
  | error =>
    obtain ⟨b, cause, he, rfl⟩ := Event.mark?_eq_error.1 hmark
    exact hid (h.begun_of_receive hm he)
  | success =>
    obtain ⟨b, fetched, he, hb⟩ := Event.mark?_eq_success.1 hmark
    rw [h.resolved_eq unchanged hm he, or_self] at hb
    exact hid (hb ▸ h.begun_of_receive hm he)

/-- What begins to load is loaded in the end, when all goes well. -/
theorem Run.success_of_begun (h : Run answers ms t w t' w') (ho : Owned t.inFlight w.registry)
    (ok : t'.outcome? = some (.ok ())) (hid : id ∈ begunIn ms) :
    w'.registry.status? id = some .success := by
  obtain ⟨m, hm, hd⟩ := List.mem_flatMap.1 hid
  obtain ⟨before, after, rfl⟩ := List.append_of_mem hm
  obtain ⟨t₁, w₁, hbefore, hstep, hafter⟩ := h.split
  refine hafter.success_of_blocked (hstep.owned (hbefore.owned ho)) ok ?_
  rw [Registry.mayLoad_eq_false_iff, hstep.status?_eq, if_pos hd]
  exact .inl rfl

/-! ### What the files lead to -/

/-- A recorded file refers to an identifier. -/
def Registry.Refers (r : Registry) (file id : String) : Prop :=
  ∃ info, r.fileInfo? file = some info ∧ id ∈ info.filepaths

/-- **What a load leaves failed.** Where modules stand where they are looked for, a load
by itself that goes well, after any others, leaves all loaded to which the recorded files
lead exactly if it fetched all that had failed and to which such a file refers that it
did not record itself. -/
theorem reached_loaded_iff {l : Loader} {requests : List LoadRequest} {request : LoadRequest}
    {past : List Moment} {w₀ : Workspace} {t₀ : Task} (fetches : l.fetches = true)
    (unchanged : ∀ request fetched, answers request (.ok fetched) → fetched.hint = .unchanged)
    (fresh : ∀ id, w₀.registry.fileInfo? id = none ∧ w₀.registry.status? id = none)
    (hpast : Run answers past (.loads (requests.map (l, ·))) w₀ t₀ w) (idle : t₀.inFlight = [])
    (h : Run answers ms (.loads [(l, request)]) w t' w') (ok : t'.outcome? = some (.ok ())) :
    (∀ id, Relation.TransGen w'.registry.Refers request.identifier id →
        w'.registry.status? id = some .success) ↔
      ∀ file info, Relation.ReflTransGen w'.registry.Refers request.identifier file →
        w'.registry.fileInfo? file = some info → (∀ m ∈ ms, m.recorded? ≠ some (file, info)) →
        ∀ id ∈ info.filepaths, w.registry.status? id = some .error → id ∈ fetchedIn ms := by
  have hd := hpast.documented fetches (.of_empty fun id => (fresh id).1)
  have hidle : ∀ id, w.registry.status? id ≠ some .loading := fun id =>
    hpast.ne_loading (owned_loads fun id => by simp [(fresh id).2]) idle
  have ho : Owned (Task.loads [(l, request)]).inFlight w.registry := owned_loads hidle
  have settled : t'.leaves = [] := (Task.isSome_outcome? t').1 (Option.isSome_of_eq_some ok)
  have hfetched : ∀ id, id ∈ fetchedIn ms ↔ id ∈ begunIn ms := fun id => by
    rw [← List.count_pos_iff, ← List.count_pos_iff, h.count_fetchedIn_of_settled settled]
  constructor
  · intro hall file info hfile hinfo _ id hid herror
    have hsuccess := hall id (.tail' hfile ⟨info, hinfo, hid⟩)
    rw [hfetched]
    by_contra hbegun
    rw [h.status?_eq_of_not_begun unchanged hbegun, herror] at hsuccess
    cases hsuccess
  · intro hall id hreach
    obtain ⟨file, hfile, info, hinfo, hid⟩ := Relation.TransGen.tail'_iff.1 hreach
    by_cases hrec : ∃ m ∈ ms, m.recorded? = some (file, info)
    · obtain ⟨m, hm, hr⟩ := hrec
      exact h.success_of_recorded ho ok hm hr hid
    · have hbefore : w.registry.fileInfo? file = some info :=
        h.fileInfo?_cases hinfo |>.resolve_left hrec
      rcases hd.settled hidle hbefore hid with hs | hs
      · exact h.success_of_blocked ho ok ((Registry.mayLoad_eq_false_iff _ _).2 (.inr hs))
      · refine h.success_of_begun ho ok ((hfetched id).1 ?_)
        exact hall file info hfile hinfo (fun m hm hr => hrec ⟨m, hm, hr⟩) id hid hs

theorem Registry.refers_of_filepaths {r : Registry} {file id : String} {paths : List String}
    (h : (r.fileInfo? file).map FileInfo.filepaths = some paths) (hid : id ∈ paths) :
    r.Refers file id := by
  obtain ⟨info, hinfo, rfl⟩ := Option.map_eq_some_iff.1 h
  exact ⟨info, hinfo, hid⟩

/-- A catalog serves its modules. -/
theorem mem_of_catalog_answers {modules : Table String CatalogModule} {request : FetchRequest}
    {fetched : Fetched}
    (ha : (ModuleSource.catalog modules).fetcher.answers request (.ok fetched)) :
    ∃ entry ∈ modules, fetched = ⟨entry.2.text, entry.2.hint⟩ := by
  simp only [Fetcher.answers, ModuleSource.fetcher, ModuleSource.fromCatalog] at ha
  cases hm : modules.get? request.relativePath with
  | none => simp [hm] at ha
  | some m =>
    cases hf : m.failure with
    | some cause => simp [hm, hf] at ha
    | none =>
      simp only [hm, hf, Except.ok.injEq] at ha
      exact ⟨_, Table.mem_of_get? hm, ha.symm⟩

theorem unchanged_of_catalog {modules : Table String CatalogModule}
    (h : ∀ entry ∈ modules, entry.2.hint = .unchanged) (request : FetchRequest)
    (fetched : Fetched)
    (ha : (ModuleSource.catalog modules).fetcher.answers request (.ok fetched)) :
    fetched.hint = .unchanged := by
  obtain ⟨entry, hmem, rfl⟩ := mem_of_catalog_answers ha
  exact h entry hmem

/-- All answers that leave what they serve where it was looked for. -/
def inPlace : Answers := fun _ answer => ∀ fetched, answer = .ok fetched → fetched.hint = .unchanged

/-- The import fails in the first load, and the second fetches it again: all is loaded. -/
theorem reached_loaded_importBeside : ∃ past t₀ w ms t' w',
    Run inPlace past (loadAlone importBeside .typescript) {} t₀ w ∧
    w.registry.status? "/x" = some .error ∧
    Run inPlace ms (loadAlone importBeside .typescript) w t' w' ∧
    t'.outcome? = some (.ok ()) ∧
    ∀ id, Relation.TransGen w'.registry.Refers "/a" id →
      w'.registry.status? id = some .success := by
  have hsub : ∀ {modules : Table String CatalogModule},
      (∀ entry ∈ modules, entry.2.hint = .unchanged) → ∀ request answer,
        (ModuleSource.catalog modules).fetcher.answers request answer → inPlace request answer :=
    fun h request answer ha fetched he => unchanged_of_catalog h request fetched (he ▸ ha)
  obtain ⟨past, hpast⟩ := exists_run_scheduled brokenBeside importBeside .typescript {}
  obtain ⟨ms, h⟩ := exists_run_scheduled mendedBeside importBeside .typescript failedBeside.2
  have hpast : Run inPlace past
      (.loads ([topRequest importBeside .typescript].map (({ fetches := true } : Loader), ·))) {}
      failedBeside.1 failedBeside.2 := hpast.mono (hsub (by simp [brokenBeside]))
  have h : Run inPlace ms _ failedBeside.2 retriedBeside.1 retriedBeside.2 :=
    h.mono (hsub (by simp [mendedBeside]))
  obtain ⟨idle, herror, hfile⟩ := failedBeside_spec
  obtain ⟨ok, hfile₂⟩ := retriedBeside_spec
  refine ⟨past, _, _, ms, _, _, hpast, herror, h, ok, ?_⟩
  refine (reached_loaded_iff rfl (fun request fetched ha => ha _ rfl) (fun _ => ⟨rfl, rfl⟩) hpast
    idle h ok).2 ?_
  -- the only file from before is the one that is loaded again
  intro file info _ hinfo hrec
  have hold := (h.fileInfo?_cases hinfo).resolve_left fun ⟨m, hm, hr⟩ => hrec m hm hr
  have hkeys : failedBeside.2.registry.files.keys = ["/a"] := by decide +kernel
  have hfile_mem : file ∈ failedBeside.2.registry.files.keys :=
    (Table.mem_keys_iff _ _).2 (Option.isSome_of_eq_some hold)
  rw [hkeys, List.mem_singleton] at hfile_mem
  subst hfile_mem
  rw [hold] at hfile
  rw [hinfo] at hfile₂
  simp at hfile hfile₂
  omega

/-! ### What a load passes over -/

def importBelow : String := "import'./y'"

/-- A module that is served, and refers to one that is not. -/
def brokenBelow : Table String CatalogModule :=
  [("/x", { text := importBelow }), ("/y", { text := "", failure := some (.host "down") })]

/-- The load of a file that imports the module. -/
def failedBelow : Task × Workspace := scheduled brokenBelow importBeside .typescript {}

/-- The next load of the same file. -/
def passedBelow : Task × Workspace := scheduled brokenBelow importBeside .typescript failedBelow.2

theorem failedBelow_spec :
    failedBelow.1.outcome? = some (.error ⟨"./y", "/y", .host "down"⟩) := by
  decide +kernel

theorem passedBelow_spec : passedBelow.1.outcome? = some (.ok ()) ∧
    passedBelow.2.registry.status? "/y" = some .error ∧
    (passedBelow.2.registry.fileInfo? "/a").map FileInfo.filepaths = some ["/x"] ∧
    (passedBelow.2.registry.fileInfo? "/x").map FileInfo.filepaths = some ["/y"] := by
  decide +kernel

/-- The first load reports the failure; the second passes over the module, and what
failed below it stays so though all goes well. -/
theorem not_reached_loaded : (∀ request fetched,
      (ModuleSource.catalog brokenBelow).fetcher.answers request (.ok fetched) →
        fetched.hint = .unchanged) ∧
    importBeside ≠ "" ∧ (Loader.parse { fetches := true } importBeside).isSome ∧
    ∃ past t w ms t' w',
      Run (ModuleSource.catalog brokenBelow).fetcher.answers past
        (loadAlone importBeside .typescript) {} t w ∧
      t.outcome? = some (.error ⟨"./y", "/y", .host "down"⟩) ∧
      Run (ModuleSource.catalog brokenBelow).fetcher.answers ms
        (loadAlone importBeside .typescript) w t' w' ∧
      t'.outcome? = some (.ok ()) ∧ Relation.TransGen w'.registry.Refers "/a" "/y" ∧
      w'.registry.status? "/y" = some .error := by
  obtain ⟨tree, parsed, -⟩ := parse_importBeside
  obtain ⟨past, hpast⟩ := exists_run_scheduled brokenBelow importBeside .typescript {}
  obtain ⟨ms, h⟩ := exists_run_scheduled brokenBelow importBeside .typescript failedBelow.2
  obtain ⟨ok, herror, hfirst, hsecond⟩ := passedBelow_spec
  refine ⟨unchanged_of_catalog (by simp [brokenBelow]), by decide, by simp [parsed], past, _, _, ms,
    _, _, hpast, failedBelow_spec, h, ok, ?_, herror⟩
  exact .tail (.single (Registry.refers_of_filepaths hfirst List.mem_cons_self))
    (Registry.refers_of_filepaths hsecond List.mem_cons_self)

end ModuleGraph
