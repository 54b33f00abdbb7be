/-
# References within a project

The identifier of a file of a project begins with a slash. What such a file refers to by a
path, and not by the name of a package, is asked for by a path that begins with a slash
again: it is looked for below the root of the project, where the path says, and not among
the packages (`stays_in_project`).

There is one exception. A specifier that leads to the root itself, as `.` and `..` do from
a file at the top, leaves nothing of the path, not even its slash. Nothing is taken for the
name of a package, and is looked for in the directory of the packages
(`root_asked_among_packages`).

Key definitions: `LeadsToRoot`.
Key theorems: `resolvePath_eq_nil_iff`, `relativePath_of_project`, `stays_in_project`.
-/
import ModuleGraph.Proofs.Location

namespace ModuleGraph

open Text Specifier

/-! ### Resolution -/

section

variable {base path : List Char}

/-- A specifier leads from a file of a project to the root of the project: it climbs at
least as far as the directory of the file lies below the root, and goes down by no name. -/
def LeadsToRoot (base specifier : String) : Prop :=
  specifier.toList.head? ≠ some '/' ∧
    (directory base.toList).length ≤ (Route.of (segments specifier.toList)).climbs ∧
    (Route.of (segments specifier.toList)).names = []

instance (base specifier : String) : Decidable (LeadsToRoot base specifier) :=
  inferInstanceAs (Decidable (_ ∧ _))

theorem resolvePath_eq_nil_iff (hbase : base.head? = some '/') :
    resolvePath base path = [] ↔ path.head? ≠ some '/' ∧
      (directory base).length ≤ (Route.of (segments path)).climbs ∧
      (Route.of (segments path)).names = [] := by
  by_cases hpath : path.head? = some '/'
  · have hne : path ≠ [] := by
      rintro rfl
      simp at hpath
    simp [resolvePath_of_head hpath, root_of_head hbase, hpath, hne]
  · have hdescend (ss : List (List Char)) : descend ss = [] ↔ ss = [] := by
      cases ss <;> simp
    rw [resolvePath_of_head_ne hpath, root_of_head hbase, List.nil_append, hdescend, foldl_step,
      Route.place_eq_nil_iff, and_iff_right hpath]

/-- What is resolved within a project begins with a slash, unless nothing is left. -/
theorem head?_resolvePath (hbase : base.head? = some '/') :
    (resolvePath base path).head? = some '/' ↔ resolvePath base path ≠ [] := by
  by_cases hpath : path.head? = some '/'
  · rw [resolvePath_of_head hpath, root_of_head hbase, List.nil_append]
    exact ⟨fun _ hnil => by simp [hnil] at hpath, fun _ => hpath⟩
  · rw [resolvePath_of_head_ne hpath, root_of_head hbase, List.nil_append]
    cases (segments path).foldl Specifier.step (directory base) <;> simp

end

/-! ### Requests -/

section

variable {base specifier : String}

/-- Within a project a specifier is asked for by the path that it resolves to. -/
theorem relativePath_of_project (hbase : base.toList.head? = some '/')
    (hspecifier : isBare specifier = false) :
    (Candidate.of base specifier defaultDependencyRoot).relativePath = resolve base specifier := by
  have hroot : ¬ defaultDependencyRoot.toList <+: resolvePath base.toList specifier.toList := by
    refine not_prefix_of_head (c := 'f') (by decide) fun hhead => ?_
    have hslash := (head?_resolvePath hbase).2 (List.ne_nil_of_mem (List.mem_of_mem_head? hhead))
    rw [hhead] at hslash
    cases hslash
  simp only [Candidate.of, Candidate.withoutRoot, target_of_not_bare _ _ hspecifier,
    String.toList_ofList, withoutPrefix_of_not hroot, resolve]

theorem resolve_eq_empty_iff (hbase : base.toList.head? = some '/') :
    resolve base specifier = "" ↔ LeadsToRoot base specifier := by
  rw [← String.toList_eq_nil_iff, resolve, String.toList_ofList]
  exact resolvePath_eq_nil_iff hbase

namespace FileFetcher

theorem basePath?_empty (f : FileFetcher) :
    f.basePath? "" = some (Path.join (Path.join f.root "node_modules") "") := by
  have hscheme : withoutPrefix scheme [] = [] := by decide
  have hclimbs : Path.climbs "" = false := by decide
  simp [basePath?, hscheme, hclimbs]

/-- What stands below the root is one of the packages only if it says so. -/
theorem begins_of_below_packages {root below : String} (hbelow : Path.isAbsolute below = false)
    (h : Path.Below (Path.join root "node_modules") (Path.join root below)) :
    "node_modules/".toList <+: below.toList := by
  have hbegins := h.begins
  have henter : Path.enter "node_modules".toList = "node_modules/".toList := by decide
  rwa [Path.toList_join root (by decide), Path.toList_join root hbelow, Path.enter_append, henter,
    List.prefix_append_right_inj] at hbegins

end FileFetcher

/-- **References of a project stay in the project.** A file of a project refers by a path to
what is asked for by a path with a slash in front, unless the specifier leads to the root
itself. It is then looked for below the root of the fetcher, where the path says, and so in
the directory of the packages only if the path begins with it. A specifier that leads to the
root is asked for by the empty path, which is the directory of the packages. -/
theorem stays_in_project (hbase : base.toList.head? = some '/')
    (hspecifier : isBare specifier = false) :
    let path := (Candidate.of base specifier defaultDependencyRoot).relativePath
    let below := String.ofList (path.toList.dropWhile (· == '/'))
    (path.toList.head? = some '/' ↔ ¬ LeadsToRoot base specifier) ∧
      ∀ f : FileFetcher,
        (¬ LeadsToRoot base specifier →
          f.basePath? path =
              (if Path.climbs path then none else some (Path.join f.root below)) ∧
            (∀ probe ∈ f.probes path, Path.Below f.root probe) ∧
            (Path.Below (Path.join f.root "node_modules") (Path.join f.root below) →
              "node_modules/".toList <+: below.toList)) ∧
        (LeadsToRoot base specifier → path = "" ∧
          f.basePath? path = some (Path.join (Path.join f.root "node_modules") "")) := by
  intro path below
  have hpath : path = resolve base specifier := relativePath_of_project hbase hspecifier
  clear_value path
  have hhead : path.toList.head? = some '/' ↔ ¬ LeadsToRoot base specifier := by
    rw [hpath, ← resolve_eq_empty_iff hbase, ← String.toList_eq_nil_iff, resolve,
      String.toList_ofList, head?_resolvePath hbase]
  have hbelow : Path.isAbsolute below = false := by
    rw [Path.isAbsolute_eq_false_iff, String.toList_ofList]
    intro hslash
    have hstop := List.head?_dropWhile_not (· == '/') path.toList
    simp [hslash] at hstop
  refine ⟨hhead, fun f => ⟨fun hlead => ⟨f.basePath?_of_head (hhead.2 hlead), ?_,
    FileFetcher.begins_of_below_packages hbelow⟩, fun hlead => ?_⟩⟩
  · exact fun probe hprobe => FileFetcher.below_of_mem_probes hprobe
  · have hempty : path = "" := hpath.trans ((resolve_eq_empty_iff hbase).2 hlead)
    exact ⟨hempty, by rw [hempty, FileFetcher.basePath?_empty]⟩

end

/-- From a directory of a project to one beside it. -/
theorem stays_in_project_upwards :
    (Candidate.of "/src/a" "../lib/x" defaultDependencyRoot).relativePath.toList.head? =
        some '/' ∧
      ∀ f : FileFetcher, f.basePath? "/lib/x" = some (Path.join f.root "lib/x") := by
  have hlead : ¬ LeadsToRoot "/src/a" "../lib/x" := by decide
  have hpath : (Candidate.of "/src/a" "../lib/x" defaultDependencyRoot).relativePath =
      "/lib/x" := by decide +kernel
  obtain ⟨hhead, hasked⟩ := @stays_in_project "/src/a" "../lib/x" (by decide) (by decide)
  refine ⟨hhead.2 hlead, fun f => ?_⟩
  have hbase := ((hasked f).1 hlead).1
  rw [hpath] at hbase
  exact hbase

/-- A project with an index file, and one among its packages. -/
def treeOfIndexes : FileTree :=
  .directory [("project", .directory
    [("index.ts", .file (some "export const a = 1;")),
      ("node_modules", .directory [("index.d.ts", .file (some "export const b: 1;"))])])]

/-- The directory of a file at the top, as a dot, is looked for among the packages; with a
slash behind the dot it is looked for at the root. -/
theorem root_asked_among_packages :
    ("/a".toList.head? = some '/' ∧ isBare "." = false ∧
      (Candidate.of "/a" "." defaultDependencyRoot).relativePath.toList.head? ≠ some '/') ∧
    FileFetcher.fetcherOfProject.fetch treeOfIndexes []
        (Candidate.of "/a" "." defaultDependencyRoot).relativePath =
      .ok ⟨"export const b: 1;", .directory⟩ ∧
    FileFetcher.fetcherOfProject.fetch treeOfIndexes []
        (Candidate.of "/a" "./" defaultDependencyRoot).relativePath =
      .ok ⟨"export const a = 1;", .directory⟩ := by
  refine ⟨⟨?_, ?_, ?_⟩, ?_, ?_⟩ <;> decide +kernel

end ModuleGraph
