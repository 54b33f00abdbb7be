/-
# Fetching once

A load begins for what is free, and what has begun is not free again unless its fetch
fails. So the fetches of an identifier are counted by the failures that a text comes
across: in a run of loads an identifier is fetched once, unless a text that refers to it
goes on after its fetch has failed in the same run (`MeetsFailed`), and then it is
fetched again (`fetched_once_iff`). Nothing tells the failures of a load from those of
the loads before it.

Key definitions: `MeetsFailed`.
Key theorems: `Run.begun_once_or`, `Run.begun_twice`, `fetched_once_iff`.
-/
import ModuleGraph.Proofs.Records

namespace ModuleGraph

variable {answers : Answers} {t t' : Task} {w w' : Workspace} {ms : List Moment} {id : String}
  {calls : List (Loader × LoadRequest)}

/-- A text that refers to an identifier goes on after the fetch of it has failed in the
same run, and while it is marked so. -/
def MeetsFailed (ms : List Moment) (id : String) : Prop :=
  ∃ before m after, ms = before ++ m :: after ∧ (∃ m₀ ∈ before, m₀.event.Fails id) ∧
    ∃ l request, m.expands? = some (l, request) ∧ id ∈ l.targets request ∧
      (m.event.note m.workspace).registry.status? id = some .error

theorem MeetsFailed.concat (h : MeetsFailed ms id) (m : Moment) : MeetsFailed (ms ++ [m]) id := by
  obtain ⟨before, m', after, rfl, hrest⟩ := h
  exact ⟨before, m', after ++ [m], by simp, hrest⟩

/-- What has begun has a status, and is marked as failed only if its fetch has failed
since. -/
theorem Run.failed_of_begun (h : Run answers ms t w t' w') (hid : id ∈ begunIn ms) :
    w'.registry.status? id ≠ none ∧
      (w'.registry.status? id = some .error → ∃ m ∈ ms, m.event.Fails id) := by
  revert hid
  refine h.preserves (P := fun past _ w => id ∈ begunIn past → w.registry.status? id ≠ none ∧
    (w.registry.status? id = some .error → ∃ m ∈ past, m.event.Fails id)) ?_ (by simp)
  intro past e t w t' w' hs hp hid
  rw [hs.status?_eq]
  by_cases hd : id ∈ (⟨e, t, w⟩ : Moment).dispatched
  · simp [hd]
  · have hbegun : id ∈ begunIn past := by simpa [hd] using hid
    obtain ⟨hnone, hfailed⟩ := hp hbegun
    rw [if_neg hd]
    cases hm : e.mark? id with
    | none =>
      refine ⟨by simpa using hnone, fun herror => ?_⟩
      obtain ⟨m, hm, hf⟩ := hfailed (by simpa using herror)
      exact ⟨m, List.mem_append_left _ hm, hf⟩
    | some status =>
      refine ⟨by simp, fun herror => ⟨⟨e, t, w⟩, by simp, Event.mark?_eq_error.1 ?_⟩⟩
      simpa [hm] using herror

/-- What begins again is met after it has failed. -/
theorem Run.meetsFailed {m : Moment} (h : Run answers ms t w m.task m.workspace)
    (hid : id ∈ begunIn ms) (hd : id ∈ m.dispatched) : MeetsFailed (ms ++ [m]) id := by
  obtain ⟨l, request, he, htarget, hfree⟩ := Moment.mem_dispatched_iff.1 hd
  obtain ⟨hnone, hfailed⟩ := h.failed_of_begun hid
  -- where a text goes on no fetch fails, so the status is from before
  have hmark : m.event.mark? id = none := by
    cases hm : m.event.mark? id with
    | none => rfl
    | some status =>
      rw [Registry.mayLoad_eq_true_iff, Event.status?_note, hm] at hfree
      obtain rfl : status = .error := by simpa using hfree
      exact absurd (Event.mark?_eq_error.1 hm) (Moment.not_fails_of_expands he)
  have hnote : (m.event.note m.workspace).registry.status? id =
      m.workspace.registry.status? id := by
    rw [Event.status?_note, hmark, Option.none_or]
  rw [Registry.mayLoad_eq_true_iff, hnote] at hfree
  have herror := hfree.resolve_left hnone
  exact ⟨ms, m, [], rfl, hfailed herror, l, request, he, htarget, hnote.trans herror⟩

/-- An identifier begins to load once, or is met after it has failed. -/
theorem Run.begun_once_or (h : Run answers ms t w t' w') :
    (begunIn ms).count id ≤ 1 ∨ MeetsFailed ms id := by
  refine (h.preserves (P := fun past t₁ w₁ => Run answers past t w t₁ w₁ ∧
    ((begunIn past).count id ≤ 1 ∨ MeetsFailed past id)) ?_ ⟨.refl t w, by simp⟩).2
  rintro past e t₁ w₁ t₂ w₂ hs ⟨hpast, hp⟩
  refine ⟨hpast.trans (.head hs (.refl _ _)), ?_⟩
  rcases hp with hle | hm
  · by_cases hd : id ∈ (⟨e, t₁, w₁⟩ : Moment).dispatched
    · by_cases hid : id ∈ begunIn past
      · exact .inr (hpast.meetsFailed hid hd)
      · have hone := List.nodup_iff_count_le_one.1 (⟨e, t₁, w₁⟩ : Moment).nodup_dispatched id
        left
        simpa [List.count_eq_zero_of_not_mem hid] using hone
    · left
      simpa [List.count_eq_zero_of_not_mem hd] using hle
  · exact .inr (hm.concat _)

/-- An identifier that is met after it has failed has begun to load before, and begins
again. -/
theorem Run.begun_twice (h : Run answers ms (.loads calls) w t' w') (hm : MeetsFailed ms id) :
    2 ≤ (begunIn ms).count id := by
  obtain ⟨before, m, after, rfl, ⟨m₀, hm₀, hfails⟩, l, request, he, htarget, herror⟩ := hm
  obtain ⟨b, cause, he₀, rfl⟩ := hfails
  obtain ⟨t₁, w₁, hbefore, -, -⟩ := h.split
  have hfirst := List.count_pos_iff.2 (hbefore.begun_of_receive hm₀ he₀)
  have hagain : b.identifier ∈ m.dispatched := Moment.mem_dispatched_iff.2
    ⟨l, request, he, htarget, (Registry.mayLoad_eq_true_iff _ _).2 (.inr herror)⟩
  have hsecond := List.count_pos_iff.2 hagain
  rw [begunIn_append, begunIn_cons, List.count_append, List.count_append]
  omega

/-- **When a module is fetched again.** However some loads overlap and whatever is
answered, once all has settled an identifier has been fetched at most once exactly if no
text that refers to it has gone on after its fetch had failed. -/
theorem fetched_once_iff (h : Run answers ms (.loads calls) w t' w') (settled : t'.outcome?.isSome)
    (id : String) : (fetchedIn ms).count id ≤ 1 ↔ ¬ MeetsFailed ms id := by
  rw [h.count_fetchedIn_of_settled ((Task.isSome_outcome? t').1 settled)]
  constructor
  · intro hle hm
    have := h.begun_twice hm
    omega
  · exact fun hm => h.begun_once_or.resolve_right hm

/-- Two imports of one text, of which the second refers to the first. -/
def mendedShared : Table String CatalogModule :=
  [("/x", { text := "1" }), ("/y", { text := importBeside })]

/-- The first import is fetched once, though both the text and the second refer to it. -/
theorem fetched_once_importTwo : ∃ ms t' w',
    Run (ModuleSource.catalog mendedShared).fetcher.answers ms (loadAlone importTwo .typescript) {}
      t' w' ∧
    t'.outcome? = some (.ok ()) ∧
    w'.fetches = [⟨"./x", "/x"⟩, ⟨"./y", "/y"⟩] ∧ ∀ id, (fetchedIn ms).count id ≤ 1 := by
  obtain ⟨ms, h⟩ := exists_run_scheduled mendedShared importTwo .typescript {}
  obtain ⟨ok, hfetches⟩ : (scheduled mendedShared importTwo .typescript {}).1.outcome? =
      some (.ok ()) ∧ (scheduled mendedShared importTwo .typescript {}).2.fetches =
        [⟨"./x", "/x"⟩, ⟨"./y", "/y"⟩] := by decide +kernel
  refine ⟨ms, _, _, h, ok, hfetches, fun id => ?_⟩
  refine (fetched_once_iff h (Option.isSome_of_eq_some ok) id).2 ?_
  rintro ⟨before, m, after, rfl, ⟨m₀, hm₀, hfails⟩, -⟩
  exact h.not_fails ok m₀ (List.mem_append_left _ hm₀) id hfails

/-! ### A module that is fetched twice -/

/-- The moments of a fetch by itself, from its beginning to the answer. -/
def Branch.moments (b : Branch) (a : FetchAnswer) (w : Workspace) : List Moment :=
  [⟨.start b a, .queued b, w⟩, ⟨.receive b a, .fetching b a 0, (Event.start b a).note w⟩]

theorem Branch.run (b : Branch) {a : FetchAnswer} (h : answers b.request a) (w : Workspace) :
    Run answers (b.moments a w) (.queued b) w (b.receive a ((Event.start b a).note w)).1
      (b.receive a ((Event.start b a).note w)).2 :=
  .head (.move (.start b ⟨a, 0⟩ 0 w h)) (.head (.move (.receive b a 0 _)) (.refl _ _))

def brokenShared : Table String CatalogModule :=
  [("/x", { text := "", failure := some (.host "down") }), ("/y", { text := importBeside })]

theorem identifier_branchSecond : branchSecond.identifier = "/y" := by decide +kernel

theorem identifier_branchBeside_second : (branchBeside "/y").identifier = "/x" := by
  decide +kernel

/-- The second import comes and refers to the first, which is free. -/
theorem receive_branchSecond (hx : w.registry.mayLoad "/x" = true) :
    (branchSecond.receive (.ok ⟨importBeside, .unchanged⟩) w).1 =
      .joined [.queued (branchBeside "/y")] := by
  rw [receive_of_admits (.inl (Graph.resolved_unchanged branchSecond importBeside)),
    Graph.resolved_unchanged, identifier_branchSecond]
  refine expand_of_dependencies (dependencies_importBeside "/y" .typescript true) ?_
  change (branchSecond.noted ⟨importBeside, .unchanged⟩ w).registry.mayLoad
    (branchBeside "/y").identifier = true
  rw [identifier_branchBeside_second]
  rw [Registry.mayLoad_eq_true_iff] at hx ⊢
  simpa [status?_noted, Graph.resolved_unchanged, identifier_branchSecond] using hx

/-- The first import fails before the second comes, which refers to it: within one load
it is fetched a second time. -/
theorem fetched_twice : ∃ ms t' w',
    Run (ModuleSource.catalog brokenShared).fetcher.answers ms (loadAlone importTwo .typescript) {}
      t' w' ∧
    t'.outcome?.isSome ∧ (fetchedIn ms).count "/x" = 2 := by
  set answers := (ModuleSource.catalog brokenShared).fetcher.answers with hanswers
  set fails : FetchAnswer := .error (.host "down")
  set serves : FetchAnswer := .ok ⟨importBeside, .unchanged⟩
  have hpath : branchSecond.candidate.relativePath = "/y" := by decide +kernel
  have hpath' : (branchBeside "/y").candidate.relativePath = "/x" := by decide +kernel
  have hfirst : answers (branchBeside "/a").request fails := by
    simp [hanswers, Fetcher.answers, Branch.request, relativePath_branchBeside_top, brokenShared,
      ModuleSource.fetcher, ModuleSource.fromCatalog, Table.get?, fails]
  have hsecond : answers branchSecond.request serves := by
    simp [hanswers, Fetcher.answers, Branch.request, hpath, brokenShared,
      ModuleSource.fetcher, ModuleSource.fromCatalog, Table.get?, serves]
  have hagain : answers (branchBeside "/y").request fails := by
    simp [hanswers, Fetcher.answers, Branch.request, hpath', brokenShared,
      ModuleSource.fetcher, ModuleSource.fromCatalog, Table.get?, fails]
  have hload : Move answers _ _ _ _ _ :=
    .load { fetches := true } ⟨importTwo, "/a", .typescript, false⟩ {}
  rw [expand_importTwo] at hload
  set w₁ := (expand { fetches := true } ⟨importTwo, "/a", .typescript, false⟩ {}).2
  have h₁ := (branchBeside "/a").run hfirst w₁
  set w₂ := ((branchBeside "/a").receive fails
    ((Event.start (branchBeside "/a") fails).note w₁)).2 with hw₂
  have hfree : w₂.registry.mayLoad "/x" = true := by
    simp [hw₂, Branch.receive, fails, identifier_branchBeside_top, Registry.mayLoad_eq_true_iff]
  have h₂ := branchSecond.run hsecond w₂
  rw [receive_branchSecond (by exact hfree)] at h₂
  have h₃ := (branchBeside "/y").run hagain
    (branchSecond.receive serves ((Event.start branchSecond serves).note w₂)).2
  have hrun : Run answers _ (loadAlone importTwo .typescript) {} _ _ :=
    .head (.joined [] [] (.move hload)) (((h₁.joined [] [.queued branchSecond]).joined [] []).trans
      (((h₂.joined [_] []).joined [] []).trans (((h₃.joined [] []).joined [_] []).joined [] [])))
  refine ⟨_, _, _, hrun, rfl, ?_⟩
  change [(branchBeside "/a").identifier, branchSecond.identifier,
    (branchBeside "/y").identifier].count "/x" = 2
  rw [identifier_branchBeside_top, identifier_branchSecond, identifier_branchBeside_second]
  decide

end ModuleGraph
