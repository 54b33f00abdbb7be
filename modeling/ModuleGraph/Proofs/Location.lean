/-
# Where the files that answer a request lie

A request stands for a path below the root (`FileFetcher.stem`): whatever is asked of the
file tree on its account lies below the root (`FileFetcher.probes_below_root`), and a file
that is served without a manifest having named it is one of those.

The types entry of a manifest is another matter. It is joined to the directory of the
manifest, so it stays there if it is relative; an absolute one is the path itself, wherever
it leads (`FileFetcher.entry_below_package`).

Key definitions: `FileFetcher.stem`, `FileFetcher.probes`, `FileFetcher.entryPaths`.
Key theorems: `FileFetcher.base_below_root`, `FileFetcher.fetch_congr`,
`FileFetcher.probes_below_root`, `FileFetcher.entry_below_package`.
-/
import Mathlib.Data.List.Find
import ModuleGraph.Proofs.FileFetch

namespace ModuleGraph

open Text

namespace FileFetcher

variable {f : FileFetcher} {files files' : FileTree} {current current' : Place}
  {relativePath base path : String} {hint : Hint} {fetched : Fetched}

/-! ### The path of a request -/

/-- The path of a request, seen from the root: without the slashes it begins with, or among
the packages if it begins with none. -/
def stem (path : List Char) : List Char :=
  if path.head? = some '/' then path.dropWhile (· == '/') else "node_modules/".toList ++ path

theorem head?_stem (path : List Char) : (stem path).head? ≠ some '/' := by
  unfold stem
  split
  · intro hslash
    have hhead := List.head?_dropWhile_not (· == '/') path
    simp [hslash] at hhead
  · simp

theorem isAbsolute_stem (path : List Char) :
    Path.isAbsolute (String.ofList (stem path)) = false := by
  rw [Path.isAbsolute_eq_false_iff, String.toList_ofList]
  exact head?_stem path

theorem no_parent_stem {path : List Char} (h : Path.climbs (String.ofList path) = false) :
    ['.', '.'] ∉ segments (stem path) := by
  have hdots := Path.no_parent_of_not_climbs h
  rw [String.toList_ofList] at hdots
  unfold stem
  split
  · intro hm
    rw [← List.takeWhile_append_dropWhile (p := (· == '/')) (l := path), takeWhile_slashes,
      segments_replicate_append] at hdots
    exact hdots (List.mem_append_right _ hm)
  · have hmodules : "node_modules/".toList = "node_modules".toList ++ ['/'] := by decide
    have hno : '/' ∉ "node_modules".toList := by decide
    rw [hmodules, List.append_assoc, List.singleton_append, segments_append_slash _ hno,
      List.mem_cons, not_or]
    exact ⟨by decide, hdots⟩

/-- A request that does not climb is about its path, seen from the root. -/
theorem basePath?_eq_some_iff : f.basePath? relativePath = some base ↔
    Path.climbs (String.ofList (withoutPrefix scheme relativePath.toList)) = false ∧
      base = Path.join f.root
        (String.ofList (stem (withoutPrefix scheme relativePath.toList))) := by
  unfold basePath?
  generalize withoutPrefix scheme relativePath.toList = path
  have hmodules (hhead : path.head? ≠ some '/') :
      Path.join (Path.join f.root "node_modules") (String.ofList path) =
        Path.join f.root (String.ofList (stem path)) := by
    have hrelative : Path.isAbsolute (String.ofList path) = false := by
      rw [Path.isAbsolute_eq_false_iff, String.toList_ofList]
      exact hhead
    have henter : Path.enter "node_modules".toList = "node_modules/".toList := by decide
    have hstem : Path.join "node_modules" (String.ofList path) = String.ofList (stem path) := by
      rw [← String.toList_inj, Path.toList_join _ hrelative, henter, stem, if_neg hhead]
      simp only [String.toList_ofList]
    rw [Path.join_join f.root (by decide) hrelative, hstem]
  by_cases hclimbs : Path.climbs (String.ofList path) = true
  · simp only [hclimbs, if_true, reduceCtorEq, Bool.true_eq_false, false_and]
  · have hstays : Path.climbs (String.ofList path) = false := by simpa using hclimbs
    simp only
    rw [if_neg hclimbs, and_iff_right hstays]
    by_cases hhead : path.head? = some '/'
    · rw [if_pos hhead, stem, if_pos hhead, Option.some_inj, eq_comm]
    · rw [if_neg hhead, hmodules hhead, Option.some_inj, eq_comm]

theorem base_below_root (h : f.basePath? relativePath = some base) :
    Path.Below f.root base := by
  obtain ⟨hclimbs, rfl⟩ := basePath?_eq_some_iff.1 h
  exact Path.below_of_no_parent f.root (isAbsolute_stem _) (by simpa using no_parent_stem hclimbs)

/-! ### What is asked of the tree -/

/-- The paths that are looked at on account of a request itself: what it may be spelled
as, and the manifest and the index files of the directory it may be. -/
def probes (f : FileFetcher) (relativePath : String) : List String :=
  match f.basePath? relativePath with
  | none => []
  | some base => f.spellings base ++ Path.join base "package.json" :: f.indexFiles base

/-- The path that is looked at on account of a manifest, if it names one. -/
def entryPaths (f : FileFetcher) (files : FileTree) (current : Place) (relativePath : String) :
    List String :=
  match f.basePath? relativePath with
  | none => []
  | some base =>
    match entry? files current base with
    | .ok (some entry) => [Path.join base entry]
    | _ => []

/-- A suffix is one word. -/
theorem suffixes_spec {suffix : String} (h : suffix ∈ f.suffixes) :
    '/' ∉ suffix.toList ∧ ∃ c, suffix.toList.getLast? = some c ∧ c ≠ '.' := by
  obtain ⟨root, language, dependencyRoot⟩ := f
  simp only [suffixes, List.mem_cons, List.not_mem_nil, or_false] at h
  cases language <;> rcases h with rfl | rfl <;> exact ⟨by decide, 's', by decide, by decide⟩

/-- A spelling of a path below the root is one. -/
theorem spelling_below_root (hbase : f.basePath? relativePath = some base)
    (h : path ∈ f.spellings base) : Path.Below f.root path := by
  rcases List.mem_cons.1 h with rfl | h
  · exact base_below_root hbase
  · obtain ⟨suffix, hsuffix, rfl⟩ := List.mem_map.1 h
    obtain ⟨hno, c, hlast, hc⟩ := suffixes_spec hsuffix
    obtain ⟨hclimbs, rfl⟩ := basePath?_eq_some_iff.1 hbase
    have hdots := no_parent_stem hclimbs
    have hhead := head?_stem (withoutPrefix scheme relativePath.toList)
    generalize stem (withoutPrefix scheme relativePath.toList) = path at hdots hhead
    have hspelled : Path.isAbsolute (String.ofList path ++ ("." ++ suffix)) = false := by
      rw [Path.isAbsolute_eq_false_iff]
      cases path with
      | nil => simp
      | cons d ds => simpa using hhead
    have hword : '/' ∉ '.' :: suffix.toList := by simp [hno]
    have hend : ('.' :: suffix.toList).getLast? = some c := by
      rw [List.getLast?_cons, hlast]
      rfl
    have hrelative : Path.isAbsolute (String.ofList path) = false := by
      rw [Path.isAbsolute_eq_false_iff, String.toList_ofList]
      exact hhead
    rw [String.append_assoc, Path.join_append f.root _ hrelative hspelled]
    refine Path.below_of_no_parent f.root hspelled ?_
    simpa using Path.no_parent_append hdots hword ⟨c, hend, hc⟩

theorem manifest_below (base : String) : Path.Below base (Path.join base "package.json") :=
  Path.below_of_no_parent base (by decide) (by decide)

theorem index_below (h : path ∈ f.indexFiles base) : Path.Below base path := by
  obtain ⟨suffix, hsuffix, rfl⟩ := List.mem_map.1 h
  have hno := (suffixes_spec hsuffix).1
  have hone : segments ("index." ++ suffix).toList = [("index." ++ suffix).toList] :=
    segments_of_no_slash (by simp [hno])
  refine Path.below_of_no_parent base ?_ ?_
  · simp [Path.isAbsolute]
  · rw [hone]
    simp

theorem isFile_congr (h : files.find? current path = files'.find? current' path) :
    files.isFile current path = files'.isFile current' path := by
  simp only [FileTree.isFile, h]

theorem isDirectory_congr (h : files.find? current path = files'.find? current' path) :
    files.isDirectory current path = files'.isDirectory current' path := by
  simp only [FileTree.isDirectory, h]

theorem read_congr (h : files.find? current path = files'.find? current' path) :
    read files current path = read files' current' path := by
  simp only [read, FileTree.text?, h]

theorem entry?_congr (h : files.find? current (Path.join base "package.json") =
      files'.find? current' (Path.join base "package.json")) :
    entry? files current base = entry? files' current' base := by
  simp only [isFile_congr h, entry?, read_congr h]

/-- The first file among paths that look alike is the same, and so is what it says. -/
theorem find?_congr {paths : List String}
    (h : ∀ path ∈ paths, files.find? current path = files'.find? current' path) :
    paths.find? (files.isFile current) = paths.find? (files'.isFile current') :=
  List.find?_congr fun path hpath => isFile_congr (h path hpath)

theorem serve_congr (h : files.find? current path = files'.find? current' path) (hint : Hint) :
    serve files current path hint = serve files' current' path hint := by
  simp only [serve, read_congr h]

theorem fetchDirectory_congr
    (hmanifest : files.find? current (Path.join base "package.json") =
      files'.find? current' (Path.join base "package.json"))
    (hentry : ∀ entry, entry? files current base = .ok (some entry) →
      files.find? current (Path.join base entry) = files'.find? current' (Path.join base entry))
    (hindex : ∀ path ∈ f.indexFiles base,
      files.find? current path = files'.find? current' path) :
    f.fetchDirectory files current relativePath base =
      f.fetchDirectory files' current' relativePath base := by
  unfold fetchDirectory
  rw [← entry?_congr hmanifest]
  simp only [bind, Except.bind]
  cases hfound : entry? files current base with
  | error e => simp only
  | ok found =>
    have hfilter : (found.filter fun entry => files.isFile current (Path.join base entry)) =
        found.filter fun entry => files'.isFile current' (Path.join base entry) := by
      cases found with
      | none => rfl
      | some entry => simp only [Option.filter_some, isFile_congr (hentry entry hfound)]
    simp only
    rw [← hfilter, ← find?_congr hindex]
    split
    · next entry hnamed =>
      obtain ⟨rfl, -⟩ := Option.filter_eq_some_iff.1 hnamed
      exact serve_congr (hentry entry hfound) _
    · split
      · next path hpath => exact serve_congr (hindex path (List.mem_of_find?_eq_some hpath)) _
      · rfl

/-- Nothing else is looked at: where two trees agree on the paths of a request, the answer
is the same. -/
theorem fetch_congr
    (h : ∀ path ∈ f.probes relativePath ++ f.entryPaths files current relativePath,
      files.find? current path = files'.find? current' path) :
    f.fetch files current relativePath = f.fetch files' current' relativePath := by
  unfold FileFetcher.fetch
  cases hbase : f.basePath? relativePath with
  | none => rfl
  | some base =>
    simp only [probes, entryPaths, hbase, List.mem_append, List.mem_cons] at h
    have hspelled : ∀ path ∈ f.spellings base,
        files.find? current path = files'.find? current' path :=
      fun path hpath => h path (.inl (.inl hpath))
    have hdirectory : f.fetchDirectory files current relativePath base =
        f.fetchDirectory files' current' relativePath base :=
      fetchDirectory_congr (h _ (.inl (.inr (.inl rfl))))
        (fun entry hentry => h _ (.inr (by simp [hentry])))
        fun path hpath => h path (.inl (.inr (.inr hpath)))
    simp only
    rw [← find?_congr hspelled, ← isDirectory_congr (hspelled base (List.mem_cons_self ..)),
      hdirectory]
    split
    · next path hpath => exact serve_congr (hspelled path (List.mem_of_find?_eq_some hpath)) _
    · rfl

theorem below_of_mem_probes (h : path ∈ f.probes relativePath) : Path.Below f.root path := by
  unfold probes at h
  split at h
  · simp at h
  · next base hbase =>
    have hbelow := base_below_root hbase
    simp only [List.mem_append, List.mem_cons] at h
    rcases h with h | rfl | h
    · exact spelling_below_root hbase h
    · exact hbelow.trans (manifest_below base)
    · exact hbelow.trans (index_below h)

/-! ### A project -/

def fetcherOfProject : FileFetcher := ⟨"/project", .typescript, defaultDependencyRoot⟩

def manifestNaming (entry : String) : String := "\x7b\"types\":\"" ++ entry ++ "\"\x7d"

/-- A project with one package, and a file that is not part of it. -/
def treeOfProject (entry : String) : FileTree :=
  .directory [("project", .directory [("node_modules", .directory [("lib", .directory
      [("package.json", .file (some (manifestNaming entry))),
        ("lib.d.ts", .file (some "export const a: 1;"))])])]),
    ("outside", .directory [("secret.d.ts", .file (some "export const b: 1;"))])]

theorem fetch_project : fetcherOfProject.fetch (treeOfProject "./lib.d.ts") [] "lib" =
    .ok ⟨"export const a: 1;", .renamed "file:///node_modules/lib/lib"⟩ := by
  decide +kernel

theorem basePath?_project :
    fetcherOfProject.basePath? "lib" = some "/project/node_modules/lib" := by
  decide +kernel

/-- **What a request asks for lies below the root:** every path that is looked at on
account of a request, whatever it says, is below the root, and these and the types entry
of the manifest are all that the answer depends on. -/
theorem probes_below_root (f : FileFetcher) (relativePath : String) :
    (∀ path ∈ f.probes relativePath, Path.Below f.root path) ∧
      ∀ (files files' : FileTree) (current current' : Place),
        (∀ path ∈ f.probes relativePath ++ f.entryPaths files current relativePath,
          files.find? current path = files'.find? current' path) →
        f.fetch files current relativePath = f.fetch files' current' relativePath :=
  ⟨fun _ => below_of_mem_probes, fun _ _ _ _ => fetch_congr⟩

/-- What is asked for about a package, from wherever the process runs. -/
theorem probes_of_project :
    Path.Below "/project" "/project/node_modules/lib/index.d.ts" ∧
      fetcherOfProject.fetch (treeOfProject "./lib.d.ts") [] "lib" =
        fetcherOfProject.fetch (treeOfProject "./lib.d.ts") ["outside"] "lib" := by
  have habsolute : ∀ path ∈ fetcherOfProject.probes "lib" ++
      fetcherOfProject.entryPaths (treeOfProject "./lib.d.ts") [] "lib",
        Path.isAbsolute path = true := by decide +kernel
  obtain ⟨hbelow, hagree⟩ := probes_below_root fetcherOfProject "lib"
  exact ⟨hbelow _ (by decide +kernel),
    hagree _ _ [] ["outside"] fun path hpath => FileTree.find?_of_isAbsolute (habsolute path hpath)⟩

/-! ### Types entries -/

theorem climbs_of_entry {entry : String} (h : entry? files current base = .ok (some entry)) :
    Path.climbs entry = false := by
  obtain ⟨manifest, -, hentry⟩ := entry?_ok h
  have hfilter := (Option.filter_eq_some_iff.1 hentry).2
  simpa using hfilter

/-- **A relative types entry is read from below its package:** the file that is served
because a manifest names it is the entry joined to the directory of the manifest. It lies
below that directory, and so below the root, if the entry is relative; an absolute entry
is the path itself, and lies there only if it says so. -/
theorem entry_below_package {identifier : String}
    (h : f.fetch files current relativePath = .ok fetched)
    (hhint : fetched.hint = .renamed identifier) :
    ∃ base entry, f.basePath? relativePath = some base ∧
      entry? files current base = .ok (some entry) ∧
      f.Finds files current relativePath (Path.join base entry) fetched.hint ∧
      files.text? current (Path.join base entry) = some fetched.text ∧
      (Path.Below base (Path.join base entry) ↔
        Path.isAbsolute entry = false ∨ Path.Below base entry) ∧
      (Path.isAbsolute entry = false → Path.Below f.root (Path.join base entry) ∧
        ∃ top place, files.follow current base = .ok top ∧
          files.follow current (Path.join base entry) = .ok place ∧ top <+: place) := by
  obtain ⟨path, hfinds, hread⟩ := fetch_eq_ok_iff.1 h
  rw [hhint] at hfinds ⊢
  obtain ⟨base, entry, hbase, hdir, hentry, hfile, rfl, -⟩ := hfinds.entry_of_renamed
  have hstays (hrelative : Path.isAbsolute entry = false) :
      Path.Below base (Path.join base entry) :=
    Path.below_of_no_parent base hrelative (Path.no_parent_of_not_climbs (climbs_of_entry hentry))
  refine ⟨base, entry, hbase, hentry, hfinds, read_eq_ok_iff.1 hread, ⟨fun hbelow => ?_, ?_⟩,
    fun hrelative => ?_⟩
  · cases habs : Path.isAbsolute entry with
    | false => exact .inl rfl
    | true => exact .inr (Path.join_of_isAbsolute base habs ▸ hbelow)
  · rintro (hrelative | hbelow)
    · exact hstays hrelative
    · cases habs : Path.isAbsolute entry with
      | false => exact hstays habs
      | true => exact (Path.join_of_isAbsolute base habs).symm ▸ hbelow
  · obtain ⟨top, htop⟩ := FileTree.follow_of_isDirectory hdir
    obtain ⟨place, hplace⟩ := FileTree.follow_of_isFile hfile
    obtain ⟨top', htop', hunder⟩ := (hstays hrelative).follow hplace
    obtain rfl := Except.ok.inj ((FileTree.follow_ok htop).symm.trans htop')
    exact ⟨(base_below_root hbase).trans (hstays hrelative), top, place, htop, hplace, hunder⟩

/-- A package that names its own file. -/
theorem entry_of_project :
    fetcherOfProject.fetch (treeOfProject "./lib.d.ts") [] "lib" =
        .ok ⟨"export const a: 1;", .renamed "file:///node_modules/lib/lib"⟩ ∧
      ∃ base entry, fetcherOfProject.basePath? "lib" = some base ∧
        entry? (treeOfProject "./lib.d.ts") [] base = .ok (some entry) ∧
        fetcherOfProject.Finds (treeOfProject "./lib.d.ts") [] "lib" (Path.join base entry)
          (.renamed "file:///node_modules/lib/lib") ∧
        (treeOfProject "./lib.d.ts").text? [] (Path.join base entry) =
          some "export const a: 1;" ∧
        (Path.Below base (Path.join base entry) ↔
          Path.isAbsolute entry = false ∨ Path.Below base entry) ∧
        (Path.isAbsolute entry = false → Path.Below "/project" (Path.join base entry) ∧
          ∃ top place, (treeOfProject "./lib.d.ts").follow [] base = .ok top ∧
            (treeOfProject "./lib.d.ts").follow [] (Path.join base entry) = .ok place ∧
            top <+: place) :=
  ⟨fetch_project, entry_below_package fetch_project rfl⟩

/-- A package whose manifest names an absolute path has that file served, from outside its
directory and from outside the root. -/
theorem entry_outside_project :
    ∃ path, fetcherOfProject.Finds (treeOfProject "/outside/secret.d.ts") [] "lib" path
        (.renamed "file:///node_modules/lib//outside/secret") ∧
      fetcherOfProject.fetch (treeOfProject "/outside/secret.d.ts") [] "lib" =
        .ok ⟨"export const b: 1;", .renamed "file:///node_modules/lib//outside/secret"⟩ ∧
      fetcherOfProject.basePath? "lib" = some "/project/node_modules/lib" ∧
      ¬ Path.Below "/project/node_modules/lib" path ∧ ¬ Path.Below "/project" path := by
  have hfinds : fetcherOfProject.Finds (treeOfProject "/outside/secret.d.ts") [] "lib"
      (Path.join "/project/node_modules/lib" "/outside/secret.d.ts")
      (.renamed (fetcherOfProject.identifierFor "lib" "/outside/secret.d.ts")) :=
    .entry basePath?_project (by decide +kernel) (by decide +kernel) (by decide +kernel)
      (by decide +kernel)
  have hpath : Path.join "/project/node_modules/lib" "/outside/secret.d.ts" =
      "/outside/secret.d.ts" := by decide +kernel
  have hidentifier : fetcherOfProject.identifierFor "lib" "/outside/secret.d.ts" =
      "file:///node_modules/lib//outside/secret" := by decide +kernel
  rw [hpath, hidentifier] at hfinds
  exact ⟨_, hfinds, hfinds.fetch.trans (by decide +kernel), basePath?_project,
    fun hbelow => absurd hbelow.begins (by decide +kernel),
    fun hbelow => absurd hbelow.begins (by decide +kernel)⟩

end FileFetcher

end ModuleGraph
