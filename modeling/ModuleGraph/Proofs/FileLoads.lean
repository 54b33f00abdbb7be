/-
# Loading from files comes to an end

A fetcher that serves one file for many identifiers may lead a load on forever: a text
that refers to its own file with one slash more each time is loaded under a new
identifier each time, since slashes at the beginning of a path do not count
(`not_settles_slashes`).

Where no text of the tree has two slashes in succession in a path of its own, rows of
slashes are bounded (`Tame`), and with them the length of what can be asked for: so
loads lead to finitely many identifiers, and settle (`settles_of_plain`).

Key definitions: `Allows`, `Sought`, `Tame`, `slashed`, `Deepening`.
Key theorems: `Sought.resolved`, `Tame.move`, `settles_of_plain`, `Deepening.step`,
`not_settles_slashes`.
-/
import Mathlib.Data.Set.Finite.List
import ModuleGraph.Proofs.FileFetch
import ModuleGraph.Proofs.Termination
import ModuleGraph.Session

namespace ModuleGraph

/-! ### Texts and their references -/

theorem length_dependencies (l : Loader) (request : LoadRequest) :
    (l.dependencies request).length = (l.refers request.text).length := by
  simp [dependencies_eq]

instance finiteChar : Finite Char :=
  Finite.of_injective (fun c : Char => c.val.toFin) fun _ _ h => Char.ext (UInt32.toFin_inj.1 h)

/-- There are finitely many short identifiers. -/
theorem finite_length_le (n : Nat) : {id : String | id.length ≤ n}.Finite := by
  refine ((List.finite_length_le Char n).image String.ofList).subset fun id hid => ?_
  exact ⟨id.toList, String.length_toList.trans_le hid, String.ofList_toList⟩

theorem exists_forall_le {α : Type} (g : α → Nat) (xs : List α) : ∃ n, ∀ x ∈ xs, g x ≤ n :=
  ⟨(xs.map g).sum, fun _ hx => List.le_sum_of_mem (List.mem_map_of_mem hx)⟩

/-! ### What a tree allows -/

variable {l : Loader} {f : FileFetcher} {files : FileTree} {k : Nat} {b : Branch}
  {fetched : Fetched}

/-- The texts of a tree lengthen no row of slashes beyond a bound: neither by what they
refer to, nor by the types entries that they name as manifests. -/
structure Allows (l : Loader) (f : FileFetcher) (files : FileTree) (k : Nat) : Prop where
  references : ∀ text ∈ files.texts, ∀ ref ∈ l.refers text,
    Plain ref.value ∧ l.dependencyRoot.length + ref.value.length + 6 ≤ k
  entries : ∀ text ∈ files.texts, ∀ entry, FileFetcher.entryOfText? text = some entry →
    f.dependencyRoot.length + 1 + entry.length ≤ k
  pos : 1 ≤ k

theorem exists_allows (plain : ∀ text ∈ files.texts, ∀ ref ∈ l.refers text, Plain ref.value)
    (least : Nat) : ∃ k, least ≤ k ∧ Allows l f files k := by
  obtain ⟨n, hn⟩ := exists_forall_le (fun ref : Reference => ref.value.length)
    (files.texts.flatMap l.refers)
  obtain ⟨m, hm⟩ := exists_forall_le String.length
    (files.texts.filterMap FileFetcher.entryOfText?)
  refine ⟨least + (l.dependencyRoot.length + n + 6) + (f.dependencyRoot.length + 1 + m), by omega,
    fun text ht ref hr => ⟨plain text ht ref hr, ?_⟩, fun text ht entry he => ?_, by omega⟩
  · have hle := hn ref (List.mem_flatMap.2 ⟨text, ht, hr⟩)
    omega
  · have hle := hm entry (List.mem_filterMap.2 ⟨text, ht, he⟩)
    omega

/-- A branch for a candidate of the loader, with bounded rows of slashes. -/
structure Sought (l : Loader) (k : Nat) (b : Branch) : Prop where
  loader : b.loader = l
  candidate : ∃ base ref, b.candidate = l.candidate base ref
  rows : Rows k b.identifier.toList

/-- How long an identifier can be under which a file is served. -/
def longest (l : Loader) (k : Nat) : Nat :=
  l.dependencyRoot.length + 2 * k + FileTree.pathLimit + 20

/-- What a file is known as has bounded rows of slashes, and a bounded length. -/
theorem Sought.resolved (h : Sought l k b) (allows : Allows l f files k)
    (served : f.Served files b.candidate.relativePath fetched) :
    Rows k (b.resolved fetched).toList ∧ (b.resolved fetched).length ≤ longest l k := by
  obtain ⟨base, ref, hc⟩ := h.candidate
  have hid : b.identifier = (l.candidate base ref).identifier := congrArg _ hc
  have hpath : Rows k b.candidate.relativePath.toList := by
    rw [hc]
    exact (hid ▸ h.rows).part (relativePath_part ..)
  have hrequest := served.length_le hpath
  have hlen : b.identifier.length ≤
      l.dependencyRoot.length + b.candidate.relativePath.length + 6 := by
    rw [hid, hc]
    exact length_candidate_le ..
  unfold Branch.resolved longest
  rcases served.hint with hh | hh | ⟨text, ht, entry, he, hh⟩ <;> rw [hh]
  · exact ⟨h.rows, by change b.identifier.length ≤ _; omega⟩
  · have hindex := length_directory_le b.identifier b.candidate.assumesEntryPoint
    exact ⟨rows_directory allows.pos h.rows _, hindex.trans (by omega)⟩
  · have hentry := allows.entries text ht entry he
    have hname := FileFetcher.length_identifierFor_le f b.candidate.relativePath entry
    exact ⟨FileFetcher.rows_identifierFor hentry hpath, hname.trans (by omega)⟩

theorem fetch_eq_of_answers {request : FetchRequest} {answer : FetchAnswer}
    (h : (ModuleSource.files f files).fetcher.answers request answer) :
    f.fetch files [] request.relativePath = answer := by
  simpa only [Fetcher.answers, ModuleSource.fetcher] using h

/-- A leaf of loads from files, all by one loader. -/
def Tame (l : Loader) (f : FileFetcher) (files : FileTree) (k : Nat) : Task → Prop
  | .load l' request => l' = l ∧ ∀ d ∈ l.dependencies request, Rows k d.2.identifier.toList
  | .queued b => Sought l k b
  | .fetching b a _ => Sought l k b ∧ f.fetch files [] b.candidate.relativePath = a
  | _ => True

theorem tame_of_mem_expand {request : LoadRequest} {w : Workspace} {x : Task}
    (rows : ∀ d ∈ l.dependencies request, Rows k d.2.identifier.toList)
    (hx : x ∈ (expand l request w).1.leaves) : Tame l f files k x := by
  rw [leaves_expand] at hx
  obtain ⟨b, hb, rfl⟩ := List.mem_map.1 hx
  obtain ⟨d, hd, rfl⟩ := mem_dispatch hb
  have hrows := rows d hd
  rw [dependencies_eq] at hd
  obtain ⟨ref, -, rfl⟩ := List.mem_map.1 hd
  exact ⟨rfl, ⟨_, ref, rfl⟩, hrows⟩

/-- What a fetched text refers to has bounded rows of slashes. -/
theorem rows_of_mem_dependencies {request : LoadRequest} (allows : Allows l f files k)
    (ht : request.text ∈ files.texts) (hid : Rows k request.identifier.toList) :
    ∀ d ∈ l.dependencies request, Rows k d.2.identifier.toList := by
  intro d hd
  rw [dependencies_eq] at hd
  obtain ⟨ref, href, rfl⟩ := List.mem_map.1 hd
  obtain ⟨hplain, hlen⟩ := allows.references _ ht ref href
  exact rows_candidate hlen hid hplain

theorem Tame.move {e : Event} {leaf new x : Task} {w w' : Workspace}
    (allows : Allows l f files k)
    (h : Move (ModuleSource.files f files).fetcher.answers e leaf w new w')
    (hleaf : Tame l f files k leaf) (hx : x ∈ new.leaves) : Tame l f files k x := by
  cases h with
  | load l' request =>
    obtain ⟨rfl, hrows⟩ := hleaf
    exact tame_of_mem_expand hrows hx
  | start b delivery now _ hanswer =>
    have hfetch := fetch_eq_of_answers hanswer
    obtain rfl : x = .fetching b delivery.answer (now + delivery.delay) :=
      List.mem_singleton.1 hx
    exact And.intro hleaf hfetch
  | receive b answer due =>
    obtain ⟨hb, hfetch⟩ := hleaf
    cases answer with
    | error cause => simp [Branch.receive] at hx
    | ok fetched =>
      by_cases ha : b.Admits fetched w.registry
      · have hserved := FileFetcher.served_of_fetch hfetch
        obtain rfl := hb.loader
        rw [receive_of_admits ha] at hx
        exact tame_of_mem_expand (rows_of_mem_dependencies allows hserved.text
          (hb.resolved allows hserved).1) hx
      · rw [receive_of_not_admits ha] at hx
        simp at hx

/-- Every text that is admitted is one of the tree, under an identifier that is not too
long. -/
theorem Run.admits_files {calls : List (Loader × LoadRequest)} {ms : List Moment} {t' : Task}
    {w w' : Workspace} (allows : Allows l f files k)
    (tame : ∀ c ∈ calls, Tame l f files k (.load c.1 c.2))
    (h : Run (ModuleSource.files f files).fetcher.answers ms (.loads calls) w t' w') :
    ∀ m ∈ ms, ∀ b fetched, m.admitted? = some (b, fetched) →
      b.loader = l ∧ fetched.text ∈ files.texts ∧
        (b.resolved fetched).length ≤ longest l k := by
  intro m hm b fetched hadm
  obtain ⟨he, -⟩ := Moment.admitted?_eq_some.1 hadm
  obtain ⟨before, t₁, w₁, hbefore, hstep⟩ := h.step_of_mem hm
  have htame : ∀ x ∈ m.task.leaves, Tame l f files k x := by
    refine hbefore.invariant (P := fun t _ => ∀ x ∈ t.leaves, Tame l f files k x)
      (fun hs => hs.forall_leaves fun hmove hleaf x => Tame.move allows hmove hleaf) ?_
    rw [Task.leaves_loads]
    intro x hx
    obtain ⟨c, hc, rfl⟩ := List.mem_map.1 hx
    exact tame c hc
  rw [he] at hstep
  obtain ⟨⟨due, hleaf⟩, -⟩ := hstep.receive_inv
  obtain ⟨hb, hfetch⟩ := htame _ hleaf
  have hserved := FileFetcher.served_of_fetch hfetch
  exact ⟨hb.loader, hserved.text, (hb.resolved allows hserved).2⟩

/-! ### Loads that settle -/

/-- **Loads from files settle** if no text of the tree has two slashes in succession in a
path that it refers to by. -/
theorem settles_of_plain (f : FileFetcher) (files : FileTree) (l : Loader)
    (requests : List LoadRequest) (w : Workspace)
    (plain : ∀ text ∈ files.texts, ∀ ref ∈ l.refers text, Plain ref.value) :
    Settles (ModuleSource.files f files).fetcher.answers
      (.loads (requests.map fun request => (l, request))) w := by
  obtain ⟨least, hleast⟩ := exists_forall_le
    (fun d : Reference × Candidate => d.2.identifier.toList.length)
    (requests.flatMap l.dependencies)
  obtain ⟨k, hk, allows⟩ := exists_allows (f := f) plain least
  obtain ⟨size, hsize⟩ := exists_forall_le (fun text => (l.refers text).length) files.texts
  have htame : ∀ c ∈ requests.map fun request => (l, request),
      Tame l f files k (.load c.1 c.2) := by
    intro c hc
    obtain ⟨request, hr, rfl⟩ := List.mem_map.1 hc
    refine ⟨rfl, fun d hd => rows_of_length ?_⟩
    exact (hleast d (List.mem_flatMap.2 ⟨request, hr, hd⟩)).trans hk
  have hbound : ∀ ms t' w', Run (ModuleSource.files f files).fetcher.answers ms
      (.loads (requests.map fun request => (l, request))) w t' w' →
      ms.length ≤ (Task.loads (requests.map fun request => (l, request))).cost +
        2 * size * {id : String | id.length ≤ longest l k}.ncard := by
    intro ms t' w' h
    refine h.length_le (finite_length_le _) fun m hm b fetched hadm => ?_
    obtain ⟨hl, htext, hlen⟩ := h.admits_files allows htame m hm b fetched hadm
    refine ⟨hlen, ?_⟩
    rw [length_dependencies, hl]
    exact hsize _ htext
  exact .of_bounded (Fetcher.answers_total _) ⟨_, hbound⟩

/-- A directory with one file. -/
def treeOf (name text : String) : FileTree :=
  .directory [("root", .directory [(name, .file (some text))])]

theorem texts_treeOf (name text : String) : (treeOf name text).texts = [text] := by
  simp [treeOf, FileTree.texts, FileTree.textsOf]

def fetcherOfRoot : FileFetcher := ⟨"root", .typescript, defaultDependencyRoot⟩

/-- What serves the one file of a directory. -/
def servesOnly (name text : String) : ModuleSource := .files fetcherOfRoot (treeOf name text)

/-- The load of a text that stands at the top. -/
def loadAtTop (text : String) : Task :=
  .loads [({ fetches := true }, ⟨text, "/a", .typescript, false⟩)]

theorem refers_importBeside :
    Loader.refers { fetches := true } importBeside = [⟨"./x", 6, 11⟩] := by
  decide +kernel

/-- A file that imports itself, under one identifier. -/
theorem settles_importBeside :
    Settles (servesOnly "x.ts" importBeside).fetcher.answers (loadAtTop importBeside) {} := by
  refine settles_of_plain _ _ { fetches := true } [⟨importBeside, "/a", .typescript, false⟩] {}
    fun text ht ref hr => ?_
  obtain rfl : text = importBeside := by simpa [texts_treeOf] using ht
  rw [refers_importBeside] at hr
  obtain rfl := List.mem_singleton.1 hr
  exact .inr (.inr (rows_of_count (by decide)))

/-! ### A load that does not -/

/-- What refers to its own file, with a slash more. -/
def importDeeper : String := "import'.//a'"

theorem refers_importDeeper :
    Loader.refers { fetches := true } importDeeper = [⟨".//a", 6, 12⟩] := by
  decide +kernel

/-- The identifiers under which the file is loaded. -/
def slashed (n : Nat) : String := String.ofList (List.replicate n '/' ++ ['a'])

theorem slashed_ne {m n : Nat} (h : n < m) : slashed m ≠ slashed n := by
  intro he
  have hlen : m = n := by simpa [slashed] using congrArg String.length he
  omega

theorem descend_replicate (n : Nat) : descend (List.replicate n []) = List.replicate n '/' := by
  induction n with
  | zero => rfl
  | succ n ih => simp [List.replicate_succ, ih]

theorem resolve_slashed (n : Nat) :
    Specifier.resolve (slashed (n + 1)) ".//a" = slashed (n + 2) := by
  have hseg : Text.segments ".//a".toList = [['.'], [], ['a']] := by decide
  have hbase : Text.segments (List.replicate (n + 1) '/' ++ ['a']) =
      List.replicate (n + 1) [] ++ [['a']] := segments_replicate_append (n + 1) ['a']
  have hroot : Specifier.root (List.replicate (n + 1) '/' ++ ['a']) = [] :=
    root_of_head (by simp [List.replicate_succ])
  have hdir : Specifier.directory (List.replicate (n + 1) '/' ++ ['a']) = List.replicate n [] := by
    rw [Specifier.directory, hbase]
    simp [List.replicate_succ, Specifier.rootLength]
  rw [Specifier.resolve, resolvePath_of_head_ne (by decide)]
  simp only [slashed, String.toList_ofList, hseg, hroot, hdir]
  congr 1
  simp [Specifier.step, descend_replicate, List.replicate_succ']

/-- The candidate of the reference from one of the identifiers. -/
theorem candidate_slashed (n start stop : Nat) :
    Loader.candidate { fetches := true } (slashed (n + 1)) ⟨".//a", start, stop⟩ =
      ⟨slashed (n + 2), slashed (n + 2), false⟩ := by
  have hbare : Specifier.isBare ".//a" = false := by decide
  have hwhole : (".//a" == Specifier.packageRoot ".//a") = false := by decide
  have hfile : defaultDependencyRoot.toList = 'f' :: "ile:///node_modules/".toList := by decide
  have hroot : Candidate.withoutRoot defaultDependencyRoot (slashed (n + 2)) = slashed (n + 2) := by
    simp [Candidate.withoutRoot, slashed, Text.withoutPrefix, hfile, List.replicate_succ]
  simp [Loader.candidate, Candidate.of, Candidate.target, hbare, hwhole, resolve_slashed, hroot]

/-- The file is served under each of the identifiers. -/
theorem fetch_slashed (n : Nat) :
    fetcherOfRoot.fetch (treeOf "a.ts" importDeeper) [] (slashed (n + 1)) =
      .ok ⟨importDeeper, .unchanged⟩ := by
  have hbase : fetcherOfRoot.basePath? (slashed (n + 1)) = some "root/a" :=
    (FileFetcher.basePath?_slashes fetcherOfRoot n ['a']).trans (by decide +kernel)
  have hspelled : (fetcherOfRoot.spellings "root/a").find?
      ((treeOf "a.ts" importDeeper).isFile []) = some "root/a.ts" := by decide +kernel
  have hserved : FileFetcher.serve (treeOf "a.ts" importDeeper) [] "root/a.ts" .unchanged =
      .ok ⟨importDeeper, .unchanged⟩ := by decide +kernel
  simp only [FileFetcher.fetch, hbase, hspelled, hserved]

theorem answer_slashed {n : Nat} {specifier : String} {answer : FetchAnswer}
    (h : (servesOnly "a.ts" importDeeper).fetcher.answers ⟨specifier, slashed (n + 1)⟩ answer) :
    answer = .ok ⟨importDeeper, .unchanged⟩ :=
  (fetch_eq_of_answers (f := fetcherOfRoot) h).symm.trans (fetch_slashed n)

/-- The branch for the file, from the identifier that has a slash less. -/
def branchDeeper (n : Nat) : Branch :=
  ⟨{ fetches := true }, ".//a", ⟨slashed (n + 2), slashed (n + 2), false⟩, .typescript⟩

/-- The load of the text under one of the identifiers. -/
def requestDeeper (n : Nat) (declaration : Bool) : LoadRequest :=
  ⟨importDeeper, slashed (n + 1), .typescript, declaration⟩

theorem dependencies_deeper (n : Nat) (declaration : Bool) :
    Loader.dependencies { fetches := true } (requestDeeper n declaration) =
      [(⟨".//a", 6, 12⟩, ⟨slashed (n + 2), slashed (n + 2), false⟩)] := by
  simp [dependencies_eq, requestDeeper, refers_importDeeper, candidate_slashed]

/-- Each time the text is expanded, a branch for the next identifier is dispatched. -/
theorem expand_deeper {n : Nat} {w : Workspace} (declaration : Bool)
    (free : ∀ m, n + 2 ≤ m → w.registry.mayLoad (slashed m) = true) :
    (expand { fetches := true } (requestDeeper n declaration) w).1.leaves =
        [.queued (branchDeeper n)] ∧
      ∀ m, n + 3 ≤ m → (expand { fetches := true } (requestDeeper n declaration)
        w).2.registry.mayLoad (slashed m) = true := by
  have hnext := free (n + 2) (Nat.le_refl _)
  have hdispatched : dispatched { fetches := true } .typescript
      (Loader.dependencies { fetches := true } (requestDeeper n declaration)) w.registry =
      [slashed (n + 2)] := by
    simp [dependencies_deeper, dispatched, dispatch, hnext, Branch.identifier]
  have hlanguage : (requestDeeper n declaration).language = .typescript := rfl
  constructor
  · simp [leaves_expand, dependencies_deeper, dispatch, hnext, branchDeeper, hlanguage]
  · intro m hm
    have hne := slashed_ne (Nat.lt_of_succ_le hm)
    rw [Registry.mayLoad_eq_true_iff, status?_expand, hlanguage, hdispatched]
    simpa [hne, Registry.mayLoad_eq_true_iff] using free m (by omega)

/-- What is left of the load: its text is to be expanded under the next identifier, and
all further ones are free. -/
inductive Deepening : Task → Workspace → Prop where
  | load {w : Workspace} (free : ∀ m, 2 ≤ m → w.registry.mayLoad (slashed m) = true) :
    Deepening (.load { fetches := true } (requestDeeper 0 false)) w
  | queued (n : Nat) {w : Workspace}
    (free : ∀ m, n + 3 ≤ m → w.registry.mayLoad (slashed m) = true) :
    Deepening (.queued (branchDeeper n)) w
  | fetching (n due : Nat) {w : Workspace}
    (free : ∀ m, n + 3 ≤ m → w.registry.mayLoad (slashed m) = true) :
    Deepening (.fetching (branchDeeper n) (.ok ⟨importDeeper, .unchanged⟩) due) w

namespace Deepening

variable {e : Event} {t t' leaf new : Task} {w w' : Workspace}

theorem move (h : Move (servesOnly "a.ts" importDeeper).fetcher.answers e leaf w new w')
    (hd : Deepening leaf w) : ∃ next, new.leaves = [next] ∧ Deepening next w' := by
  cases hd with
  | load free =>
    cases h
    obtain ⟨hleaves, hfree⟩ := expand_deeper false free
    exact ⟨_, hleaves, .queued 0 hfree⟩
  | queued n free =>
    cases h with
    | start _ delivery now _ hanswer =>
      refine ⟨.fetching (branchDeeper n) delivery.answer (now + delivery.delay), ?_, ?_⟩
      · simp [Branch.start, Task.leaves]
      · rw [answer_slashed hanswer]
        exact .fetching n _ free
  | fetching n due free =>
    cases h
    have hadm : (branchDeeper n).Admits ⟨importDeeper, .unchanged⟩ w.registry := .inl rfl
    have hid : (branchDeeper n).identifier = slashed (n + 2) := rfl
    have hres : (branchDeeper n).resolved ⟨importDeeper, .unchanged⟩ = slashed (n + 1 + 1) := rfl
    have hreceive : (branchDeeper n).receive (.ok ⟨importDeeper, .unchanged⟩) w =
        expand { fetches := true } (requestDeeper (n + 1) true)
          ((branchDeeper n).noted ⟨importDeeper, .unchanged⟩ w) := by
      rw [receive_of_admits hadm, hres]
      rfl
    have hnoted : ∀ m, n + 1 + 2 ≤ m → ((branchDeeper n).noted
        ⟨importDeeper, .unchanged⟩ w).registry.mayLoad (slashed m) = true := by
      intro m hm
      have hne := slashed_ne (Nat.lt_of_succ_le hm)
      rw [Registry.mayLoad_eq_true_iff, status?_noted, hid, hres]
      simpa [hne, Registry.mayLoad_eq_true_iff] using free m hm
    obtain ⟨hleaves, hfree⟩ := expand_deeper true hnoted
    rw [hreceive]
    exact ⟨_, hleaves, .queued (n + 1) hfree⟩

theorem step (h : Step (servesOnly "a.ts" importDeeper).fetcher.answers e t w t' w')
    (hd : ∃ leaf, t.leaves = [leaf] ∧ Deepening leaf w) :
    ∃ leaf, t'.leaves = [leaf] ∧ Deepening leaf w' := by
  obtain ⟨leaf, hleaves, hd⟩ := hd
  obtain ⟨before, leaf', after, new, hm, ht, ht'⟩ := h.splice
  rw [hleaves] at ht
  obtain ⟨rfl, rfl, rfl⟩ : before = [] ∧ leaf' = leaf ∧ after = [] := by
    cases before <;> simp_all
  obtain ⟨next, hnext, hd'⟩ := hd.move hm
  exact ⟨next, by simp [ht', hnext], hd'⟩

end Deepening

/-- **A load that never settles.** A file refers to itself with one slash more than the
path it is loaded under, which leads to the same file under a new identifier. -/
theorem not_settles_slashes :
    (∀ ms t' w', Run (servesOnly "a.ts" importDeeper).fetcher.answers ms
      (loadAtTop importDeeper) {} t' w' → t'.outcome? = none) ∧
    ¬ Settles (servesOnly "a.ts" importDeeper).fetcher.answers (loadAtTop importDeeper) {} := by
  have hnever : ∀ ms t' w', Run (servesOnly "a.ts" importDeeper).fetcher.answers ms
      (loadAtTop importDeeper) {} t' w' → t'.outcome? = none := by
    intro ms t' w' h
    obtain ⟨leaf, hleaves, -⟩ := h.invariant
      (P := fun t w => ∃ leaf, t.leaves = [leaf] ∧ Deepening leaf w) Deepening.step
      ⟨_, rfl, .load fun m _ => rfl⟩
    rw [← Option.not_isSome_iff_eq_none, Task.isSome_outcome?, hleaves]
    exact List.cons_ne_nil _ _
  exact ⟨hnever, not_settles (Fetcher.answers_total _) hnever⟩

end ModuleGraph
