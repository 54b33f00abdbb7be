/-
# What is loaded stays loaded

An identifier is done with (`Finished`) once it is loaded and no branch is under way
for it. Nothing undoes this: a dispatch passes over what is loaded, and an answer
changes an identifier to failed only if its own branch is under way. An answer that
brings a text finishes the identifier of its branch, and what it leads to if the text
is admitted.

So a fetch for an identifier begins only if none is under way for it, and none before
has succeeded. This holds whatever the registry says at the beginning: what it marks
as loading counts as under way elsewhere (`exists_owned`).

Key definitions: `Finished`.
Key theorems: `Run.split`, `Run.through`, `Run.owned_beside`, `Step.finished_of_receive`,
`Run.finished`, `Run.fetching_cases`, `one_fetch_at_a_time`.
-/
import Mathlib.Data.List.Dedup
import ModuleGraph.Proofs.StatusLaw

namespace ModuleGraph

open LoadStatus

variable {answers : Answers} {e : Event} {t t' : Task} {w w' : Workspace} {ms : List Moment}
  {b : Branch} {a : FetchAnswer} {fetched : Fetched} {id : String} {others : List String}

/-! ### The course of a run -/

/-- A run passes through each of its moments. -/
theorem Run.split {before after : List Moment} {m : Moment}
    (h : Run answers (before ++ m :: after) t w t' w') : ∃ t₁ w₁,
      Run answers before t w m.task m.workspace ∧
        Step answers m.event m.task m.workspace t₁ w₁ ∧ Run answers after t₁ w₁ t' w' := by
  induction before generalizing t w with
  | nil =>
    cases h with
    | head hs hrest => exact ⟨_, _, .refl _ _, hs, hrest⟩
  | cons m₀ before ih =>
    cases h with
    | head hs hrest =>
      obtain ⟨t₁, w₁, hbefore, hm, hafter⟩ := ih hrest
      exact ⟨t₁, w₁, .head hs hbefore, hm, hafter⟩

/-- A moment of a run is a step from a state that the run leads to. -/
theorem Run.step_of_mem {m : Moment} (h : Run answers ms t w t' w') (hm : m ∈ ms) :
    ∃ before t₁ w₁, Run answers before t w m.task m.workspace ∧
      Step answers m.event m.task m.workspace t₁ w₁ := by
  obtain ⟨before, after, rfl⟩ := List.append_of_mem hm
  obtain ⟨t₁, w₁, hbefore, hstep, -⟩ := h.split
  exact ⟨before, t₁, w₁, hbefore, hstep⟩

/-- A run goes on from each of its states. -/
theorem Run.through (h : Run answers ms t w t' w') : ∀ s ∈ states ms t' w', ∃ before after,
    ms = before ++ after ∧ Run answers before t w s.1 s.2 ∧ Run answers after s.1 s.2 t' w' := by
  induction h with
  | refl t w =>
    intro s hs
    obtain rfl := List.mem_singleton.1 hs
    exact ⟨[], [], rfl, .refl t w, .refl t w⟩
  | head hs hrest ih =>
    intro s hm
    rcases List.mem_cons.1 hm with rfl | hm
    · exact ⟨[], _, rfl, .refl _ _, .head hs hrest⟩
    · obtain ⟨before, after, rfl, hbefore, hafter⟩ := ih s hm
      exact ⟨_, after, rfl, .head hs hbefore, hafter⟩

/-- What every step keeps holds in every state that a run passes through. -/
theorem Run.forall_states {P : Task → Workspace → Prop}
    (step : ∀ {e t w t' w'}, Step answers e t w t' w' → P t w → P t' w')
    (h : Run answers ms t w t' w') (start : P t w) : ∀ s ∈ states ms t' w', P s.1 s.2 := by
  intro s hs
  obtain ⟨before, -, -, hbefore, -⟩ := h.through s hs
  exact hbefore.invariant step start

/-! ### What is under way elsewhere -/

/-- What a registry marks as loading can be under way elsewhere. -/
theorem exists_owned (r : Registry) : ∃ others, Owned others r := by
  refine ⟨(r.statuses.keys.filter fun id => r.status? id = some .loading).dedup,
    List.nodup_dedup _, fun id hid => ?_, fun id hs => ?_⟩
  · rw [Registry.mayLoad_eq_false_iff]
    left
    simpa using (List.mem_filter.1 (List.mem_dedup.1 hid)).2
  · refine List.mem_dedup.2 (List.mem_filter.2 ⟨?_, by simpa using hs⟩)
    rw [Table.mem_keys_iff]
    exact Option.isSome_of_eq_some hs

theorem Step.owned_beside (h : Step answers e t w t' w')
    (ho : Owned (t.inFlight ++ others) w.registry) :
    Owned (t'.inFlight ++ others) w'.registry := by
  obtain ⟨leaf, new, ids, hm, ht, ht'⟩ := h.inFlight_perm
  have hbefore : (t.inFlight ++ others).Perm
      (Task.identifiers leaf.leaves ++ (ids ++ others)) := by
    rw [← List.append_assoc]
    exact ht.append_right others
  have hafter : (t'.inFlight ++ others).Perm
      (Task.identifiers new.leaves ++ (ids ++ others)) := by
    rw [← List.append_assoc]
    exact ht'.append_right others
  exact (hm.owned (ho.of_perm hbefore)).of_perm hafter.symm

theorem Run.owned_beside (h : Run answers ms t w t' w')
    (ho : Owned (t.inFlight ++ others) w.registry) :
    Owned (t'.inFlight ++ others) w'.registry :=
  h.invariant (P := fun t w => Owned (t.inFlight ++ others) w.registry)
    (fun hs => hs.owned_beside) ho

theorem Owned.nodup_left {ids : List String} {r : Registry} (h : Owned (ids ++ others) r) :
    ids.Nodup :=
  (List.nodup_append'.1 h.nodup).1

/-- What is free is not under way. -/
theorem Owned.not_mem_of_free {ids : List String} {r : Registry} (h : Owned ids r)
    (free : r.mayLoad id = true) : id ∉ ids := by
  intro hid
  rw [h.blocked id hid] at free
  exact Bool.false_ne_true free

/-! ### What is done with -/

/-- An identifier is loaded, and no branch is under way for it. -/
structure Finished (id : String) (t : Task) (w : Workspace) : Prop where
  success : w.registry.status? id = some .success
  idle : id ∉ t.inFlight

/-- What is loaded is not free. -/
theorem not_free_of_success {r : Registry} (hs : r.status? id = some .success) :
    r.mayLoad id ≠ true := by
  simp [Registry.mayLoad_eq_true_iff, hs]

/-- An expansion passes over what is loaded. -/
theorem finished_expand {ids : List String} (l : Loader) (request : LoadRequest)
    (hs : w.registry.status? id = some .success) (hid : id ∉ ids) :
    (expand l request w).2.registry.status? id = some .success ∧
      id ∉ Task.identifiers (expand l request w).1.leaves ++ ids := by
  refine ⟨eq_of_advances_success (hs ▸ advances_expand l request w id), fun hm => ?_⟩
  rw [identifiers_expand] at hm
  rcases List.mem_append.1 hm with hm | hm
  · exact not_free_of_success hs (mayLoad_of_mem_dispatched hm)
  · exact hid hm

/-- An answer that brings a text passes over what it marks, and over what was loaded. -/
theorem finished_receive {ids : List String}
    (hs : (b.noted fetched w).registry.status? id = some .success) (hid : id ∉ ids) :
    (b.receive (.ok fetched) w).2.registry.status? id = some .success ∧
      id ∉ Task.identifiers (b.receive (.ok fetched) w).1.leaves ++ ids :=
  receive_cases
    (P := fun r => r.2.registry.status? id = some .success ∧
      id ∉ Task.identifiers r.1.leaves ++ ids)
    (fun l request => finished_expand l request hs hid) ⟨hs, hid⟩

theorem Move.finished {ids : List String} (h : Move answers e t w t' w')
    (hs : w.registry.status? id = some .success) (hid : id ∉ Task.identifiers t.leaves ++ ids) :
    w'.registry.status? id = some .success ∧ id ∉ Task.identifiers t'.leaves ++ ids := by
  cases h with
  | load l request => exact finished_expand l request hs hid
  | start b delivery now _ => exact ⟨hs, hid⟩
  | receive b answer due =>
    obtain ⟨hne, hids⟩ : id ≠ b.identifier ∧ id ∉ ids :=
      not_or.1 fun h => hid (List.mem_cons.2 h)
    cases answer with
    | error cause => exact ⟨by simpa [Branch.receive, Ne.symm hne] using hs, hids⟩
    | ok fetched =>
      refine finished_receive ?_ hids
      rw [status?_noted, hs]
      split <;> rfl

/-- What is done with stays so. -/
theorem Step.finished (h : Step answers e t w t' w') (hf : Finished id t w) :
    Finished id t' w' := by
  obtain ⟨leaf, new, ids, hm, ht, ht'⟩ := h.inFlight_perm
  obtain ⟨hs, hid⟩ := hm.finished hf.success fun hid => hf.idle (ht.mem_iff.2 hid)
  exact ⟨hs, fun hid' => hid (ht'.mem_iff.1 hid')⟩

/-- An answer that brings a text finishes the identifier of its branch and, if the text
is admitted, what it leads to. -/
theorem Step.finished_of_receive (h : Step answers (.receive b (.ok fetched)) t w t' w')
    (ho : Owned (t.inFlight ++ others) w.registry)
    (hid : id = b.identifier ∨ b.Admits fetched w.registry ∧ id = b.resolved fetched) :
    Finished id t' w' := by
  obtain ⟨leaf, new, ids, hm, ht, ht'⟩ := h.inFlight_perm
  cases hm with
  | receive _ _ due =>
    have hown : b.identifier ∉ ids :=
      (List.nodup_cons.1 (ht.nodup_iff.1 ho.nodup_left)).1
    have hids : id ∉ ids := by
      rcases hid with rfl | ⟨hres | hfree, rfl⟩
      · exact hown
      · rw [hres]
        exact hown
      · intro hm
        exact ho.not_mem_of_free hfree
          (List.mem_append_left _ (ht.mem_iff.2 (List.mem_append_right _ hm)))
    have hmarked : (b.noted fetched w).registry.status? id = some .success := by
      rw [status?_noted, if_pos (hid.imp_right And.right)]
    obtain ⟨hs, hnew⟩ := finished_receive hmarked hids
    exact ⟨hs, fun hm => hnew (ht'.mem_iff.1 hm)⟩

theorem Run.finished (h : Run answers ms t w t' w') (hf : Finished id t w) :
    Finished id t' w' :=
  h.invariant (P := Finished id) Step.finished hf

theorem Run.finished_states (h : Run answers ms t w t' w') (hf : Finished id t w) :
    ∀ s ∈ states ms t' w', Finished id s.1 s.2 :=
  h.forall_states (P := Finished id) Step.finished hf

/-! ### Fetches -/

theorem Step.start_inv (h : Step answers (.start b a) t w t' w') :
    .queued b ∈ t.leaves ∧ ∃ due, .fetching b a due ∈ t'.leaves := by
  obtain ⟨before, leaf, after, new, hm, ht, ht'⟩ := h.splice
  cases hm with
  | start _ delivery now _ _ =>
    rw [ht, ht']
    exact ⟨by simp, now + delivery.delay, by simp [Branch.start, Task.leaves]⟩

/-- No fetch begins for what is done with. -/
theorem Step.start_ne (h : Step answers (.start b a) t w t' w') (hf : Finished id t w) :
    b.identifier ≠ id := by
  rintro rfl
  exact hf.idle (Task.mem_inFlight h.start_inv.1 rfl)

theorem Run.start_ne (h : Run answers ms t w t' w') (hf : Finished id t w) :
    ∀ m ∈ ms, ∀ b a, m.event = .start b a → b.identifier ≠ id := by
  intro m hm b a he
  obtain ⟨before, t₁, w₁, hbefore, hstep⟩ := h.step_of_mem hm
  rw [he] at hstep
  exact hstep.start_ne (hbefore.finished hf)

/-- A fetch is under way until it is answered. -/
theorem Step.fetching (h : Step answers e t w t' w')
    (hf : ∃ due, .fetching b a due ∈ t.leaves) :
    (∃ due, .fetching b a due ∈ t'.leaves) ∨ e = .receive b a := by
  obtain ⟨due, hf⟩ := hf
  obtain ⟨before, leaf, after, new, hm, ht, ht'⟩ := h.splice
  rw [ht] at hf
  rcases List.mem_append.1 hf with hf | hf
  · exact .inl ⟨due, by simp [ht', hf]⟩
  · rcases List.mem_cons.1 hf with rfl | hf
    · cases hm
      exact .inr rfl
    · exact .inl ⟨due, by simp [ht', hf]⟩

/-- A fetch that was under way still is, or has been answered: with a failure, or with a
text, and then its identifier is done with. -/
theorem Run.fetching_cases (h : Run answers ms t w t' w') :
    Owned (t.inFlight ++ others) w.registry → (∃ due, .fetching b a due ∈ t.leaves) →
      (∃ due, .fetching b a due ∈ t'.leaves) ∨
        (∃ cause, a = .error cause ∧ ∃ m ∈ ms, m.event = .receive b (.error cause)) ∨
        Finished b.identifier t' w' := by
  induction h with
  | refl => exact fun _ hf => .inl hf
  | @head e ms t t₁ t' w w₁ w' hs hrest ih =>
    intro ho hf
    rcases hs.fetching hf with hf | rfl
    · refine (ih (hs.owned_beside ho) hf).imp_right (Or.imp_left ?_)
      rintro ⟨cause, ha, m, hm, he⟩
      exact ⟨cause, ha, m, List.mem_cons_of_mem _ hm, he⟩
    · cases a with
      | error cause => exact .inr (.inl ⟨cause, rfl, _, List.mem_cons_self, rfl⟩)
      | ok fetched =>
        exact .inr (.inr (hrest.finished (hs.finished_of_receive ho (.inl rfl))))

/-- Two leaves whose branches are for one identifier are one. -/
theorem eq_of_branch? {leaf leaf' : Task} {b b' : Branch} (h : t.inFlight.Nodup)
    (hl : leaf ∈ t.leaves) (hl' : leaf' ∈ t.leaves) (hb : leaf.branch? = some b)
    (hb' : leaf'.branch? = some b') (hid : b.identifier = b'.identifier) : leaf' = leaf := by
  obtain ⟨before, after, heq⟩ := List.append_of_mem hl
  have hmem : ∀ {rest : List Task}, leaf' ∈ rest → b.identifier ∈ Task.identifiers rest :=
    fun hm => hid ▸ List.mem_map_of_mem (List.mem_filterMap.2 ⟨leaf', hm, hb'⟩)
  have hsplit : t.inFlight =
      Task.identifiers before ++ b.identifier :: Task.identifiers after := by
    simp [Task.inFlight, heq, Task.identifiers, hb]
  rw [hsplit] at h
  obtain ⟨-, hafter, hdisj⟩ := List.nodup_append'.1 h
  rw [heq] at hl'
  rcases List.mem_append.1 hl' with hm | hm
  · exact absurd List.mem_cons_self (hdisj (hmem hm))
  · rcases List.mem_cons.1 hm with rfl | hm
    · rfl
    · exact absurd (hmem hm) (List.nodup_cons.1 hafter).1

variable {calls : List (Loader × LoadRequest)}

/-- Loads that have not begun leave all that is marked as loading to others. -/
theorem exists_owned_loads (calls : List (Loader × LoadRequest)) (w : Workspace) :
    ∃ others, Owned ((Task.loads calls).inFlight ++ others) w.registry := by
  rw [Task.inFlight_loads]
  exact exists_owned w.registry

/-- **One fetch at a time.** However the calls overlap, no two branches are under way for
one identifier in any state, and if two fetches for an identifier begin one after the
other, the first has failed in between. -/
theorem one_fetch_at_a_time (h : Run answers ms (.loads calls) w t' w') :
    (∀ s ∈ states ms t' w', s.1.inFlight.Nodup) ∧
      ∀ before m between m' after, ms = before ++ m :: (between ++ m' :: after) →
        ∀ b a b' a', m.event = .start b a → m'.event = .start b' a' →
          b.identifier = b'.identifier →
            ∃ cause, a = .error cause ∧ ∃ m'' ∈ between, m''.event = .receive b (.error cause) := by
  obtain ⟨others, ho⟩ := exists_owned_loads calls w
  constructor
  · intro s hs
    have hstate := h.forall_states (P := fun t w => Owned (t.inFlight ++ others) w.registry)
      Step.owned_beside ho s hs
    exact hstate.nodup_left
  · rintro before m between m' after rfl b a b' a' hm hm' hid
    obtain ⟨t₁, w₁, hbefore, hstep, hrest⟩ := h.split
    obtain ⟨t₂, w₂, hbetween, hstep', -⟩ := hrest.split
    rw [hm] at hstep
    rw [hm'] at hstep'
    have hqueued := hstep'.start_inv.1
    have ho₁ := (hbefore.owned_beside ho)
    have ho₂ := hbetween.owned_beside (hstep.owned_beside ho₁)
    rcases hbetween.fetching_cases (hstep.owned_beside ho₁) hstep.start_inv.2 with
      ⟨due, hf⟩ | hfailed | hdone
    · have hsame := eq_of_branch? ho₂.nodup_left hf hqueued rfl rfl hid
      cases hsame
    · exact hfailed
    · exact absurd hid.symm (hstep'.start_ne hdone)

/-- Two loads of one text at one place: what it imports is fetched, which fails, and by
the second load is fetched again. -/
theorem one_fetch_importBeside : ∃ before m between m' t' w',
    Run (fun _ _ => True) (before ++ m :: (between ++ m' :: []))
      (twoLoads { fetches := true } .typescript importBeside "/a" "/a") {} t' w' ∧
    m.event = .start (branchBeside "/a") (.error (.host "")) ∧
    m'.event = .start (branchBeside "/a") (.ok ⟨"", .unchanged⟩) ∧
    ∃ m'' ∈ between, m''.event = .receive (branchBeside "/a") (.error (.host "")) := by
  obtain ⟨tree, parsed, single⟩ := parse_importBeside
  set b := branchBeside "/a" with hb
  have expanded : ∀ w : Workspace, w.registry.mayLoad b.identifier = true →
      (expand { fetches := true } ⟨importBeside, "/a", .typescript, false⟩ w).1 =
        .joined [.queued b] := fun w free =>
    (expand_single .typescript rfl parsed single free).1
  set request : LoadRequest := ⟨importBeside, "/a", .typescript, false⟩
  set w₁ := (expand { fetches := true } request {}).2
  have first : Move (fun _ _ => True) _ _ _ _ w₁ := .load { fetches := true } request {}
  rw [expanded {} rfl] at first
  have start : Move (fun _ _ => True) _ _ _ _ _ := .start b ⟨.error (.host ""), 0⟩ 0 w₁ trivial
  set w₂ := (b.start ⟨.error (.host ""), 0⟩ 0 w₁).2
  have fail : Move (fun _ _ => True) _ _ _ _ _ := .receive b (.error (.host "")) 0 w₂
  set w₃ := (b.receive (.error (.host "")) w₂).2 with hw₃
  have free : w₃.registry.mayLoad b.identifier = true := by
    simp [hw₃, Branch.receive, Registry.mayLoad_eq_true_iff]
  have second : Move (fun _ _ => True) _ _ _ _ _ := .load { fetches := true } request w₃
  rw [expanded w₃ free] at second
  have again : Move (fun _ _ => True) _ _ _ _ _ := .start b ⟨.ok ⟨"", .unchanged⟩, 0⟩ 0
    (expand { fetches := true } request w₃).2 trivial
  have hrun : Run _ _ (twoLoads { fetches := true } .typescript importBeside "/a" "/a") {} _ _ :=
    .head (.joined [] [_] (.move first))
      (.head (.joined [] [_] (.joined [] [] (.move start)))
        (.head (.joined [] [_] (.joined [] [] (.move fail)))
          (.head (.joined [_] [] (.move second))
            (.head (.joined [_] [] (.joined [] [] (.move again))) (.refl _ _)))))
  have halone := one_fetch_at_a_time hrun
  obtain ⟨cause, hcause, hm⟩ := halone.2 [_] _ [_, _] _ [] rfl b (.error (.host "")) b
    (.ok ⟨"", .unchanged⟩) rfl rfl rfl
  cases hcause
  exact ⟨[_], _, [_, _], _, _, _, hrun, rfl, rfl, hm⟩

end ModuleGraph
