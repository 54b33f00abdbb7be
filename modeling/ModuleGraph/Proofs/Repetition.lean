/-
# Loads that are repeated

A load that goes well leaves all that its text refers to loaded, whatever else has been
loaded or has failed before. So the same load finds nothing to dispatch when it is made
again: it goes well at once, nothing is fetched and nothing registered, and only the file
itself is recorded anew.

That record may differ from the one before, which may be of a text that was fetched for
the file. From the second load on it is of the text that is handed over, so that the
registry has the same contents from then on (`loaded_again`).

Key definitions: `Workspace.SameBut`, `Registry.SameContents`.
Key theorems: `expand_of_blocked`, `Run.load_alone`, `settles_of_blocked`, `loaded_again`.
-/
import ModuleGraph.Proofs.Buffers
import ModuleGraph.Proofs.FewModules

namespace ModuleGraph

/-- What a recording says of a file, apart from which recording it is. -/
def FileInfo.content (info : FileInfo) : Json × List Reference × List String :=
  (info.tree, info.imports, info.filepaths)

/-- Two registries say the same of every identifier. -/
structure Registry.SameContents (r r' : Registry) : Prop where
  statuses : ∀ id, r'.status? id = r.status? id
  files : ∀ id, (r'.fileInfo? id).map FileInfo.content = (r.fileInfo? id).map FileInfo.content

/-- Nothing was fetched and nothing registered, and nothing has changed in the registry but
what is recorded of one file. -/
structure Workspace.SameBut (file : String) (w w' : Workspace) : Prop where
  fetches : w'.fetches = w.fetches
  host : w'.host = w.host
  statuses : ∀ id, w'.registry.status? id = w.registry.status? id
  files : ∀ id, id ≠ file → w'.registry.fileInfo? id = w.registry.fileInfo? id

variable {answers : Answers} {e : Event} {t t' : Task} {w w' : Workspace} {ms : List Moment}
  {l : Loader} {request : LoadRequest}

/-! ### Texts that refer to nothing free -/

theorem dispatch_of_blocked {language : Language} : ∀ {pairs : List (Reference × Candidate)}
    {r : Registry}, (∀ p ∈ pairs, r.mayLoad p.2.identifier = false) →
      dispatch l language pairs r = ([], r)
  | [], _, _ => rfl
  | p :: rest, r, h => by
    rw [dispatch_cons_of_blocked (h p List.mem_cons_self)]
    exact dispatch_of_blocked fun q hq => h q (List.mem_cons_of_mem _ hq)

section

variable (blocked : ∀ id ∈ l.targets request, w.registry.mayLoad id = false)

include blocked

theorem dispatch_of_targets : dispatch l request.language (l.dependencies request) w.registry =
    ([], w.registry) :=
  dispatch_of_blocked fun _ hp => blocked _ (List.mem_map_of_mem hp)

theorem outcome?_expand_of_blocked : (expand l request w).1.outcome? = some (.ok ()) := by
  rcases expand_fst l request w with he | he
  · rw [he]
    rfl
  · rw [he, dispatch_of_targets blocked]
    rfl

/-- A text that is handed over and refers to nothing free is recorded, and that is all. -/
theorem expand_of_blocked (handed : request.declaration = false) :
    w.SameBut request.identifier (expand l request w).2 where
  fetches := fetches_expand l request w
  host := by
    rw [host_expand, announce_eq_id l request (by simp [handed]), ServiceHost.map_id]
  statuses id := by
    rw [status?_expand, dispatched, dispatch_of_targets blocked]
    simp
  files id hid := by rw [fileInfo?_expand, if_neg hid.symm]

end

/-- A text that is recorded a second time has the same contents on record as before. -/
theorem sameContents_expand (h : (expand l request w).2.SameBut request.identifier
      (expand l request (expand l request w).2).2) :
    (expand l request w).2.registry.SameContents
      (expand l request (expand l request w).2).2.registry where
  statuses := h.statuses
  files id := by
    by_cases hid : request.identifier = id
    · rw [fileInfo?_expand _ _ (expand l request w).2, fileInfo?_expand _ _ w, if_pos hid,
        if_pos hid]
      cases hp : l.parse request.text <;> simp [Loader.info?, hp, FileInfo.content]
    · rw [h.files id fun he => hid he.symm]

/-! ### One load -/

theorem Step.load_alone (h : Step answers e (.loads [(l, request)]) w t' w') :
    e = .load l request ∧ t' = .joined [(expand l request w).1] ∧ w' = (expand l request w).2 := by
  generalize ht : Task.loads [(l, request)] = t at h
  cases h with
  | move hm => cases hm <;> cases ht
  | joined before after hs =>
    obtain ⟨rfl, hleaf⟩ : before = [] ∧ _ :: after = [Task.load l request] := by
      cases before with
      | nil => exact ⟨rfl, (Task.joined.inj ht).symm⟩
      | cons _ before => simp [Task.loads] at ht
    cases hleaf
    cases hs with
    | move hm =>
      cases hm with
      | load => exact ⟨rfl, rfl, rfl⟩

/-- A load by itself has not begun, or goes on from its expansion. -/
theorem Run.load_alone (h : Run answers ms (.loads [(l, request)]) w t' w') :
    (ms = [] ∧ t' = .loads [(l, request)]) ∨
    ∃ ms', ms = ⟨.load l request, .loads [(l, request)], w⟩ :: ms' ∧
      Run answers ms' (.joined [(expand l request w).1]) (expand l request w).2 t' w' := by
  cases h with
  | refl => exact .inl ⟨rfl, rfl⟩
  | head hs hrest =>
    obtain ⟨rfl, rfl, rfl⟩ := hs.load_alone
    exact .inr ⟨_, rfl, hrest⟩

/-- A load by itself that is settled has expanded its text. -/
theorem Run.load_of_settled (h : Run answers ms (.loads [(l, request)]) w t' w')
    (settled : t'.outcome?.isSome) :
    ∃ ms', ms = ⟨.load l request, .loads [(l, request)], w⟩ :: ms' ∧
      Run answers ms' (.joined [(expand l request w).1]) (expand l request w).2 t' w' := by
  refine h.load_alone.resolve_left ?_
  rintro ⟨-, rfl⟩
  simp [Task.isSome_outcome?, Task.leaves_loads] at settled

section

variable (blocked : ∀ id ∈ l.targets request, w.registry.mayLoad id = false)

include blocked

theorem outcome?_joined_of_blocked :
    (Task.joined [(expand l request w).1]).outcome? = some (.ok ()) :=
  Task.outcome?_joined_ok (by simp [outcome?_expand_of_blocked blocked])

theorem leaves_joined_of_blocked : (Task.joined [(expand l request w).1]).leaves = [] :=
  (Task.isSome_outcome? _).1 (Option.isSome_of_eq_some (outcome?_joined_of_blocked blocked))

/-- A load of what refers to nothing free is settled by its one step. -/
theorem settles_of_blocked (answers : Answers) :
    Settles answers (.loads [(l, request)]) w where
  bounded := by
    refine ⟨1, fun ms t' w' h => ?_⟩
    rcases h.load_alone with ⟨rfl, -⟩ | ⟨ms', rfl, h'⟩
    · exact Nat.zero_le 1
    · obtain ⟨rfl, -, -⟩ := h'.of_settled (leaves_joined_of_blocked blocked)
      exact Nat.le_refl 1
  progress ms t' w' h hnone := by
    rcases h.load_alone with ⟨-, rfl⟩ | ⟨ms', -, h'⟩
    · exact ⟨_, _, _, .joined [] [] (.move (.load l request w'))⟩
    · obtain ⟨-, rfl, -⟩ := h'.of_settled (leaves_joined_of_blocked blocked)
      simp [outcome?_joined_of_blocked blocked] at hnone

theorem Run.load_of_blocked (h : Run answers ms (.loads [(l, request)]) w t' w')
    (settled : t'.outcome?.isSome) :
    t'.outcome? = some (.ok ()) ∧ w' = (expand l request w).2 := by
  obtain ⟨ms', -, h'⟩ := h.load_of_settled settled
  obtain ⟨-, rfl, rfl⟩ := h'.of_settled (leaves_joined_of_blocked blocked)
  exact ⟨outcome?_joined_of_blocked blocked, rfl⟩

end

/-! ### Repetitions -/

/-- **Loads may be repeated.** When a load by itself goes well where nothing is loading, the
same load settles once more and goes well: it fetches and registers nothing, and changes no
status and no record but that of its own file. After a further one the registry has the
same contents. -/
theorem loaded_again {t₁ : Task} {w₁ : Workspace}
    (idle : ∀ id, w.registry.status? id ≠ some .loading) (handed : request.declaration = false)
    (h : Run answers ms (.loads [(l, request)]) w t₁ w₁) (ok : t₁.outcome? = some (.ok ())) :
    Settles answers (.loads [(l, request)]) w₁ ∧
    ∀ ms₂ t₂ w₂, Run answers ms₂ (.loads [(l, request)]) w₁ t₂ w₂ → t₂.outcome?.isSome →
      t₂.outcome? = some (.ok ()) ∧ w₁.SameBut request.identifier w₂ ∧
      Settles answers (.loads [(l, request)]) w₂ ∧
      ∀ ms₃ t₃ w₃, Run answers ms₃ (.loads [(l, request)]) w₂ t₃ w₃ → t₃.outcome?.isSome →
        t₃.outcome? = some (.ok ()) ∧ w₂.SameBut request.identifier w₃ ∧
          w₂.registry.SameContents w₃.registry := by
  obtain ⟨ms', rfl, -⟩ := h.load_of_settled (Option.isSome_of_eq_some ok)
  have blocked : ∀ id ∈ l.targets request, w₁.registry.mayLoad id = false := fun id hid =>
    (Registry.mayLoad_eq_false_iff ..).2 (.inr
      (h.success_of_expands (owned_loads idle) ok List.mem_cons_self rfl hid))
  refine ⟨settles_of_blocked blocked answers, fun ms₂ t₂ w₂ h₂ settled₂ => ?_⟩
  obtain ⟨ok₂, rfl⟩ := h₂.load_of_blocked blocked settled₂
  -- no status has changed, so that the same holds of the next load
  have same := expand_of_blocked blocked handed
  have blocked₂ : ∀ id ∈ l.targets request,
      (expand l request w₁).2.registry.mayLoad id = false := by
    intro id hid
    rw [Registry.mayLoad_eq_false_iff, same.statuses, ← Registry.mayLoad_eq_false_iff]
    exact blocked id hid
  refine ⟨ok₂, same, settles_of_blocked blocked₂ answers, fun ms₃ t₃ w₃ h₃ settled₃ => ?_⟩
  obtain ⟨ok₃, rfl⟩ := h₃.load_of_blocked blocked₂ settled₃
  have same₂ := expand_of_blocked blocked₂ handed
  exact ⟨ok₃, same₂, sameContents_expand same₂⟩

/-! ### A file that is fetched when it is loaded -/

def importedOnce : Task × Workspace := scheduled importedBack importBeside .typescript {}

def importedTwice : Task × Workspace :=
  scheduled importedBack importBeside .typescript importedOnce.2

def importedThrice : Task × Workspace :=
  scheduled importedBack importBeside .typescript importedTwice.2

theorem importedOnce_spec : importedOnce.1.outcome? = some (.ok ()) ∧
    importedTwice.1.outcome?.isSome ∧ importedThrice.1.outcome?.isSome ∧
    (importedOnce.2.registry.fileInfo? "/a").map FileInfo.imports = some [] ∧
    (importedTwice.2.registry.fileInfo? "/a").map FileInfo.imports = some [⟨"./x", 6, 11⟩] := by
  decide +kernel

/-- At the first load the file is fetched, so that its record changes at the second, and no
more at the third. -/
theorem loaded_again_importedBack : ∃ ms t₁ w₁ ms₂ t₂ w₂ ms₃ t₃ w₃,
    Run (ModuleSource.catalog importedBack).fetcher.answers ms
      (loadAlone importBeside .typescript) {} t₁ w₁ ∧ t₁.outcome? = some (.ok ()) ∧
    Run (ModuleSource.catalog importedBack).fetcher.answers ms₂
      (loadAlone importBeside .typescript) w₁ t₂ w₂ ∧ t₂.outcome? = some (.ok ()) ∧
    w₁.SameBut "/a" w₂ ∧ ¬ w₁.registry.SameContents w₂.registry ∧
    Run (ModuleSource.catalog importedBack).fetcher.answers ms₃
      (loadAlone importBeside .typescript) w₂ t₃ w₃ ∧
    w₂.registry.SameContents w₃.registry := by
  obtain ⟨ok, settled₂, settled₃, himports, himports₂⟩ := importedOnce_spec
  obtain ⟨ms, h⟩ := exists_run_scheduled importedBack importBeside .typescript {}
  obtain ⟨ms₂, h₂⟩ := exists_run_scheduled importedBack importBeside .typescript importedOnce.2
  obtain ⟨ms₃, h₃⟩ := exists_run_scheduled importedBack importBeside .typescript importedTwice.2
  have idle : ∀ id, ({} : Workspace).registry.status? id ≠ some .loading := fun _ => by
    simp [Registry.status?]
  obtain ⟨-, hagain⟩ := loaded_again idle rfl h ok
  obtain ⟨ok₂, same, -, hfurther⟩ := hagain ms₂ _ _ h₂ settled₂
  obtain ⟨-, -, contents⟩ := hfurther ms₃ _ _ h₃ settled₃
  refine ⟨ms, _, _, ms₂, _, _, ms₃, _, _, h, ok, h₂, ok₂, same, fun hsame => ?_, h₃, contents⟩
  have hfiles := congrArg (Option.map fun content => content.2.1) (hsame.files "/a")
  simp only [Option.map_map] at hfiles
  have hmap : (fun content : Json × List Reference × List String => content.2.1) ∘
      FileInfo.content = FileInfo.imports := rfl
  rw [hmap] at hfiles
  have hboth := himports₂.symm.trans (hfiles.trans himports)
  simp at hboth

end ModuleGraph
