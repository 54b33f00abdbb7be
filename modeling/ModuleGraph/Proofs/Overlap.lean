/-
# Two loads that overlap

Two loads of one text at different places, each with a single import: both may
be under way at once (`exists_run_fetching`), and the second may be answered first
(`run_receive`). The text `importBeside` is such a text: what it imports depends
on where it stands.

Key definitions: `Loader.branch`, `twoLoads`, `secondAnswered`, `firstAnswered`,
`importBeside`, `branchBeside`.
Key theorems: `exists_run_fetching`, `run_receive`, `exists_run_importBeside`.
-/
import ModuleGraph.Proofs.Expansion

namespace ModuleGraph

/-- The branch for the only reference of a text. -/
def Loader.branch (l : Loader) (identifier : String) (language : Language) (ref : Reference) :
    Branch :=
  ⟨l, ref.value, l.candidate identifier ref, language⟩

/-- Two loads of one text, each of which stands at a place of its own. -/
def twoLoads (l : Loader) (language : Language) (text first second : String) : Task :=
  .loads [(l, ⟨text, first, language, false⟩), (l, ⟨text, second, language, false⟩)]

/-- Two tasks, each within a load. -/
def withinLoads (t t' : Task) : Task := .joined [.joined [t], .joined [t']]

section

variable {l : Loader} {language : Language} {text first second : String} {tree : Json}
  {ref : Reference} {answers : Answers} {w : Workspace}

/-- A text with one reference, to what is free, has one branch. -/
theorem expand_single (language : Language) (fetches : l.fetches = true)
    (parsed : l.parse text = some tree) (single : references tree = [ref]) {identifier : String}
    (free : w.registry.mayLoad (l.candidate identifier ref).identifier = true) :
    (expand l ⟨text, identifier, language, false⟩ w).1 =
        .joined [.queued (l.branch identifier language ref)] ∧
      (∀ id, (expand l ⟨text, identifier, language, false⟩ w).2.registry.status? id =
        if (l.candidate identifier ref).identifier = id then some .loading
        else w.registry.status? id) ∧
      (expand l ⟨text, identifier, language, false⟩ w).2.host = w.host := by
  have hdeps : l.dependencies ⟨text, identifier, language, false⟩ =
      [(ref, l.candidate identifier ref)] := by
    simp [Loader.dependencies, parsed, Loader.resolve, fetches, single]
  refine ⟨expand_of_dependencies hdeps free, fun id => ?_, ?_⟩
  · rw [status?_expand, hdeps,
      dispatched_cons_of_free (p := (ref, l.candidate identifier ref)) free]
    simp [dispatched, dispatch, eq_comm (a := id)]
  · have hannounce : l.announce ⟨text, identifier, language, false⟩ = id := announce_eq_id l _ rfl
    rw [host_expand, hannounce, ServiceHost.map_id]

/-- Both loads may begin, and both their fetches, before any is answered. -/
theorem exists_run_fetching (fetches : l.fetches = true)
    (parsed : l.parse text = some tree) (single : references tree = [ref])
    (free : ∀ id, w.registry.status? id = none)
    (distinct : (l.candidate first ref).identifier ≠ (l.candidate second ref).identifier)
    {a a' : FetchAnswer} (h : answers (l.branch first language ref).request a)
    (h' : answers (l.branch second language ref).request a') :
    ∃ ms w', Run answers ms (twoLoads l language text first second) w
        (withinLoads (.fetching (l.branch first language ref) a 0)
          (.fetching (l.branch second language ref) a' 0)) w' ∧
      (∀ id, w'.registry.status? id =
        if id = (l.candidate first ref).identifier ∨ id = (l.candidate second ref).identifier
        then some .loading else none) ∧
      w'.host = w.host ∧ ∀ m ∈ ms, ∀ b a, m.event ≠ .receive b a := by
  have free₁ : w.registry.mayLoad (l.candidate first ref).identifier = true := by
    simp [Registry.mayLoad_eq_true_iff, free]
  obtain ⟨t₁, s₁, h₁⟩ := expand_single language fetches parsed single free₁
  set w₁ := (expand l ⟨text, first, language, false⟩ w).2
  have free₂ : w₁.registry.mayLoad (l.candidate second ref).identifier = true := by
    simp [Registry.mayLoad_eq_true_iff, s₁, distinct, free]
  obtain ⟨t₂, s₂, h₂⟩ := expand_single language fetches parsed single free₂
  set w₂ := (expand l ⟨text, second, language, false⟩ w₁).2
  have m₁ : Move answers _ _ w _ w₁ := .load l ⟨text, first, language, false⟩ w
  have m₂ : Move answers _ _ w₁ _ w₂ := .load l ⟨text, second, language, false⟩ w₁
  rw [t₁] at m₁
  rw [t₂] at m₂
  have m₃ := Move.start (l.branch first language ref) ⟨a, 0⟩ 0 w₂ h
  have m₄ := Move.start (l.branch second language ref) ⟨a', 0⟩ 0
    ((l.branch first language ref).start ⟨a, 0⟩ 0 w₂).2 h'
  refine ⟨_, _, .head (.joined [] [_] (.move m₁)) (.head (.joined [_] [] (.move m₂))
    (.head (.joined [] [_] (.joined [] [] (.move m₃)))
      (.head (.joined [_] [] (.joined [] [] (.move m₄))) (.refl _ _)))), fun id => ?_,
    h₂.trans h₁, by simp⟩
  refine (s₂ id).trans ?_
  rw [s₁, free]
  by_cases e₁ : id = (l.candidate first ref).identifier <;>
    by_cases e₂ : id = (l.candidate second ref).identifier <;> simp [*, eq_comm]

end

section

variable (b b' : Branch) (a a' : FetchAnswer) (w : Workspace)

/-- Of two branches under way, the second is answered. -/
def secondAnswered : Moment :=
  ⟨.receive b' a', withinLoads (.fetching b a 0) (.fetching b' a' 0), w⟩

/-- The first is answered afterwards. -/
def firstAnswered : Moment :=
  ⟨.receive b a, withinLoads (.fetching b a 0) (b'.receive a' w).1, (b'.receive a' w).2⟩

@[simp] theorem workspace_firstAnswered :
    (firstAnswered b b' a a' w).workspace = (b'.receive a' w).2 := rfl

/-- Of two branches under way, the second may be answered first. -/
theorem run_receive (answers : Answers) :
    Run answers [secondAnswered b b' a a' w, firstAnswered b b' a a' w]
      (withinLoads (.fetching b a 0) (.fetching b' a' 0)) w
      (withinLoads (b.receive a (b'.receive a' w).2).1 (b'.receive a' w).1)
      (b.receive a (b'.receive a' w).2).2 :=
  .head (.joined [_] [] (.joined [] [] (.move (.receive b' a' 0 w))))
    (.head (.joined [] [_] (.joined [] [] (.move (.receive b a 0 _)))) (.refl _ _))

end

theorem leaves_withinLoads (t t' : Task) :
    (withinLoads t t').leaves = t.leaves ++ t'.leaves := by
  simp [withinLoads, Task.leaves, Task.leavesOf]

/-! ### A text that imports what stands beside it -/

def importBeside : String := "import'./x'"

theorem parse_importBeside : ∃ tree, Loader.parse { fetches := true } importBeside = some tree ∧
    references tree = [⟨"./x", 6, 11⟩] := by
  have h : (Loader.parse { fetches := true } importBeside).map references =
      some [⟨"./x", 6, 11⟩] := by decide +kernel
  simpa using h

/-- The branch of the text at a place. -/
def branchBeside (identifier : String) : Branch :=
  Loader.branch { fetches := true } identifier .typescript ⟨"./x", 6, 11⟩

theorem identifier_branchBeside_top : (branchBeside "/a").identifier = "/x" := by decide +kernel

theorem identifier_branchBeside_below : (branchBeside "/b/c").identifier = "/b/x" := by
  decide +kernel

theorem relativePath_branchBeside_top : (branchBeside "/a").candidate.relativePath = "/x" := by
  decide +kernel

theorem relativePath_branchBeside_below :
    (branchBeside "/b/c").candidate.relativePath = "/b/x" := by
  decide +kernel

/-- The text at the top and below, both imports under way. -/
theorem exists_run_importBeside (answers : Answers) (a a' : FetchAnswer) {w : Workspace}
    (free : ∀ id, w.registry.status? id = none)
    (h : answers (branchBeside "/a").request a) (h' : answers (branchBeside "/b/c").request a') :
    ∃ ms w', Run answers ms
        (twoLoads { fetches := true } .typescript importBeside "/a" "/b/c") w
        (withinLoads (.fetching (branchBeside "/a") a 0) (.fetching (branchBeside "/b/c") a' 0))
        w' ∧
      (∀ id, w'.registry.status? id =
        if id = "/x" ∨ id = "/b/x" then some .loading else none) ∧
      w'.host = w.host ∧ ∀ m ∈ ms, ∀ b a, m.event ≠ .receive b a := by
  obtain ⟨tree, parsed, single⟩ := parse_importBeside
  have hx : (Loader.candidate { fetches := true } "/a" ⟨"./x", 6, 11⟩).identifier = "/x" :=
    identifier_branchBeside_top
  have hy : (Loader.candidate { fetches := true } "/b/c" ⟨"./x", 6, 11⟩).identifier = "/b/x" :=
    identifier_branchBeside_below
  have distinct : (Loader.candidate { fetches := true } "/a" ⟨"./x", 6, 11⟩).identifier ≠
      (Loader.candidate { fetches := true } "/b/c" ⟨"./x", 6, 11⟩).identifier := by
    rw [hx, hy]
    decide
  have hrun := exists_run_fetching rfl parsed single free distinct h h'
  rwa [hx, hy] at hrun

end ModuleGraph
