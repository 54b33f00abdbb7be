/-
# Which settings a directory gets

A workspace is marked by its directory for settings, and the nearest workspace counts: the
search goes up from the current directory and stops at the first directory for settings, with
or without a file in it. So the settings are those of the nearest file as long as no directory
for settings without one lies nearer, and else the defaults under the environment
(`load_nearest`); `treeShadowed` is the smallest tree in which such a directory hides a file
further up.

Where no directory for settings is found, the file is looked for once more, from the current
directory upwards. This finds nothing: what holds the file would have been such a directory
(`isDirectory_of_isFile`).

A search upwards asks at each place for a relative path. To ask for the paths behind those of the
places comes to the same (`findFile_eq_along_paths`), but only as long as these can be taken:
where the path fits below the limit and the joined one does not, the two differ.

Key definitions: `FileTree.pathOf`, `FileTree.Nameable`, `Settings.settingsPath`.
Key theorems: `FileTree.find?_pathOf`, `Settings.nearest_eq_some_iff`,
`Settings.findFile_eq_along_paths`, `Settings.load_nearest`.
-/
import ModuleGraph.Proofs.Manifests
import ModuleGraph.Proofs.SettingsLayers

namespace ModuleGraph

open Text

namespace FileTree

/-! ### The path of a place -/

/-- The path from the root to a place, with a slash behind each name on the way. -/
def pathOf (place : Place) : String :=
  String.ofList ('/' :: place.flatMap fun name => name.toList ++ ['/'])

/-- A name that a file can have. -/
structure Nameable (name : String) : Prop where
  ne_empty : name ≠ ""
  ne_dot : name ≠ "."
  ne_dots : name ≠ ".."
  no_slash : '/' ∉ name.toList
  no_nul : '\x00' ∉ name.toList
  size : name.utf8ByteSize ≤ nameLimit

instance (name : String) : Decidable (Nameable name) :=
  decidable_of_iff (name ≠ "" ∧ name ≠ "." ∧ name ≠ ".." ∧ '/' ∉ name.toList ∧
    '\x00' ∉ name.toList ∧ name.utf8ByteSize ≤ nameLimit)
  ⟨fun ⟨h₁, h₂, h₃, h₄, h₅, h₆⟩ => ⟨h₁, h₂, h₃, h₄, h₅, h₆⟩,
    fun h => ⟨h.ne_empty, h.ne_dot, h.ne_dots, h.no_slash, h.no_nul, h.size⟩⟩

variable {tree : FileTree} {current place : Place} {path : String}

theorem toList_pathOf_append (place : Place) (path : String) :
    (pathOf place ++ path).toList =
      '/' :: ((place.flatMap fun name => name.toList ++ ['/']) ++ path.toList) := by
  simp [pathOf]

theorem isAbsolute_pathOf_append (place : Place) (path : String) :
    Path.isAbsolute (pathOf place ++ path) = true := by
  rw [Path.isAbsolute, toList_pathOf_append]
  rfl

theorem pathOf_append (place below : Place) : pathOf (place ++ below) =
    pathOf place ++ String.ofList (below.flatMap fun name => name.toList ++ ['/']) := by
  simp [pathOf, ← String.toList_inj]

/-- The steps of a path behind that of a place are those of the path, behind the names on the
way. -/
theorem stepsFrom_pathOf_append (hnames : ∀ name ∈ place, Nameable name) (current : Place)
    (path : String) :
    stepsFrom current (pathOf place ++ path) = ([], place ++ Path.parts path) := by
  have hsegments : segments ((place.flatMap fun name => name.toList ++ ['/']) ++ path.toList) =
      place.map String.toList ++ segments path.toList := by
    induction place with
    | nil => rfl
    | cons name rest ih =>
      have hrest := ih fun n hn => hnames n (List.mem_cons_of_mem _ hn)
      have hslash := (hnames name List.mem_cons_self).no_slash
      simp [segments_append_slash _ hslash, hrest]
  rw [stepsFrom, if_pos (isAbsolute_pathOf_append place path), Path.parts, toList_pathOf_append,
    segments, if_pos rfl, hsegments]
  simp [Path.parts]

theorem followAll_names (hnames : ∀ name ∈ place, Nameable name)
    (hdir : tree.isDirectoryAt place = true) : tree.followAll [] place = .ok place := by
  induction place using List.reverseRecOn with
  | nil => rfl
  | append_singleton front name ih =>
    have hfront : tree.isDirectoryAt front = true := by
      simpa using isDirectoryAt_dropLast hdir
    have hname : Nameable name := hnames name (by simp)
    have hsome : (tree.at? (front ++ [name])).isSome = true := by
      unfold isDirectoryAt at hdir
      split at hdir
      · next h => simp [h]
      · cases hdir
    rw [followAll_append, ih (fun n hn => hnames n (by simp [hn])) hfront, Except.bind,
      followAll_singleton]
    simp [step, hfront, hname.ne_empty, hname.ne_dot, hname.ne_dots, hsome, Nat.not_lt.2 hname.size]

/-- **A place and its path see the same:** what a path behind that of a directory leads to is
what the path leads to from the directory. -/
theorem find?_pathOf (hnames : ∀ name ∈ place, Nameable name)
    (hdir : tree.isDirectoryAt place = true) (habs : Path.isAbsolute path = false)
    (hempty : path ≠ "") (hnul : '\x00' ∉ path.toList)
    (hsize : (pathOf place ++ path).utf8ByteSize < pathLimit) (current : Place) :
    tree.find? current (pathOf place ++ path) = tree.find? place path := by
  have hne : pathOf place ++ path ≠ "" := by
    rw [← String.toList_inj.ne, toList_pathOf_append]
    simp
  have hnul' : '\x00' ∉ (pathOf place ++ path).toList := by
    rw [toList_pathOf_append]
    simpa [hnul] using fun name hname => (hnames name hname).no_nul
  have hsize' : path.utf8ByteSize < pathLimit := by
    rw [String.utf8ByteSize_append] at hsize
    omega
  have hsteps : stepsFrom place path = (place, Path.parts path) := by
    rw [stepsFrom, habs]
    rfl
  have hfollow (place' : Place) : tree.follow current (pathOf place ++ path) = .ok place' ↔
      tree.follow place path = .ok place' := by
    rw [follow_eq_ok_iff, follow_eq_ok_iff, stepsFrom_pathOf_append hnames, hsteps,
      followAll_append, followAll_names hnames hdir]
    simp only [hne, hnul', hsize, hempty, hnul, hsize', Except.bind, ne_eq, not_false_eq_true,
      true_and]
  unfold find?
  cases hplace : tree.follow place path with
  | ok place' => rw [(hfollow place').2 hplace]
  | error e =>
    cases hjoined : tree.follow current (pathOf place ++ path) with
    | ok place' => rw [(hfollow place').1 hjoined] at hplace; cases hplace
    | error e => rfl

end FileTree

namespace Settings

open FileTree

variable {tree : FileTree} {current place : Place}

/-! ### The nearest place -/

theorem mem_ancestors_iff : place ∈ ancestors current ↔ place <+: current := by
  unfold ancestors
  simp only [List.mem_map, List.mem_range]
  constructor
  · rintro ⟨n, -, rfl⟩
    exact List.take_prefix ..
  · intro h
    refine ⟨current.length - place.length, by omega, ?_⟩
    have hle := h.length_le
    rw [Nat.sub_sub_self hle]
    exact (List.prefix_iff_eq_take.1 h).symm

theorem pairwise_ancestors (current : Place) :
    (ancestors current).Pairwise fun near far => far.length < near.length := by
  unfold ancestors
  rw [List.pairwise_map]
  refine List.pairwise_lt_range.imp_of_mem fun {m n} hm hn hlt => ?_
  rw [List.mem_range] at hm hn
  simp only [List.length_take]
  omega

/-- The nearest place of a kind is of that kind, and no nearer one is. -/
theorem nearest_eq_some_iff {p : Place → Bool} :
    (ancestors current).find? p = some place ↔
      place ∈ ancestors current ∧ p place = true ∧
        ∀ near ∈ ancestors current, place.length < near.length → p near = false := by
  rw [List.find?_eq_some_iff_append]
  constructor
  · rintro ⟨hp, nearer, further, hsplit, hnearer⟩
    have hpairs := hsplit ▸ pairwise_ancestors current
    obtain ⟨-, hfar, -⟩ := List.pairwise_append.1 hpairs
    rw [hsplit]
    refine ⟨by simp, hp, fun near hnear hlt => ?_⟩
    rcases List.mem_append.1 hnear with hnear | hnear
    · simpa using hnearer near hnear
    · rcases List.mem_cons.1 hnear with rfl | hnear
      · omega
      · have := (List.pairwise_cons.1 hfar).1 near hnear
        omega
  · rintro ⟨hmem, hp, hnear⟩
    obtain ⟨nearer, further, hsplit⟩ := List.append_of_mem hmem
    have hpairs := hsplit ▸ pairwise_ancestors current
    refine ⟨hp, nearer, further, hsplit, fun near hin => ?_⟩
    have hlt := (List.pairwise_append.1 hpairs).2.2 near hin place List.mem_cons_self
    simp [hnear near (by simp [hsplit, hin]) hlt]

/-! ### Files and directories for settings -/

/-- The path of the file for settings in a directory. -/
def settingsPath (place : Place) : String := pathOf place ++ workspacePath

theorem parts_workspacePath : Path.parts workspacePath = [directory, fileName] := by
  decide +kernel

/-- What holds a file for settings is a directory for settings. -/
theorem isDirectory_of_isFile (h : tree.isFile place workspacePath = true) :
    tree.isDirectory place directory = true := by
  obtain ⟨place', hfollow⟩ := follow_of_isFile h
  have hsteps : stepsFrom place workspacePath = (place, [directory] ++ [fileName]) := by
    rw [stepsFrom, parts_workspacePath]
    rfl
  have hall := follow_ok hfollow
  rw [hsteps, followAll_append, followAll_singleton] at hall
  cases hstep : tree.step place directory with
  | error e => simp [hstep, Except.bind] at hall
  | ok inner =>
    have hdir : tree.isDirectoryAt inner = true := by
      rw [hstep, Except.bind, followAll_singleton] at hall
      exact isDirectoryAt_of_step hall
    have hinner : tree.follow place directory = .ok inner := by
      refine follow_eq_ok_iff.2 ⟨by decide, by decide, by decide, ?_⟩
      rw [← hstep, ← followAll_singleton]
      rfl
    rw [isDirectory, find?, hinner]
    exact hdir

/-- A working directory: one of the tree, with names on the way to it that files can have, and
with a path that leaves room for that of its file for settings. -/
structure WorksIn (tree : FileTree) (current : Place) : Prop where
  directory : tree.isDirectoryAt current = true
  names : ∀ name ∈ current, Nameable name
  size : (settingsPath current).utf8ByteSize < pathLimit

theorem isDirectoryAt_ancestor (hplace : place <+: current)
    (h : tree.isDirectoryAt current = true) : tree.isDirectoryAt place = true := by
  obtain ⟨below, rfl⟩ := hplace
  induction below using List.reverseRecOn with
  | nil => simpa using h
  | append_singleton front name ih =>
    refine ih ?_
    simpa [← List.append_assoc] using isDirectoryAt_dropLast h

theorem utf8ByteSize_ancestor (hplace : place <+: current) (path : String) :
    (pathOf place ++ path).utf8ByteSize ≤ (pathOf current ++ path).utf8ByteSize := by
  obtain ⟨below, rfl⟩ := hplace
  simp only [pathOf_append, String.utf8ByteSize_append]
  omega

theorem WorksIn.ancestor (h : WorksIn tree current) (hplace : place ∈ ancestors current) :
    WorksIn tree place := by
  have habove := mem_ancestors_iff.1 hplace
  exact ⟨isDirectoryAt_ancestor habove h.directory,
    fun name hname => h.names name (habove.subset hname),
    (utf8ByteSize_ancestor habove workspacePath).trans_lt h.size⟩

/-- The file for settings in a directory, by its path. -/
theorem find?_settingsPath (h : WorksIn tree place) (current : Place) :
    tree.find? current (settingsPath place) = tree.find? place workspacePath :=
  find?_pathOf h.names h.directory (by decide) (by decide) (by decide) h.size current

theorem isFile_settingsPath (h : WorksIn tree place) (current : Place) :
    tree.isFile current (settingsPath place) = tree.isFile place workspacePath := by
  simp only [isFile, find?_settingsPath h]

theorem loadFrom_settingsPath (h : WorksIn tree place) (current : Place) (env : Environment) :
    loadFrom tree current (settingsPath place) env =
      ofFile (if tree.isFile place workspacePath then tree.find? place workspacePath else none)
        env := by
  have habs : Path.isAbsolute (settingsPath place) = true := isAbsolute_pathOf_append ..
  rw [loadFrom, findFile, if_pos habs, isFile_settingsPath h, find?_settingsPath h]

/-- **To search from place to place is to search along their paths,** as long as the path from the
root stays below the limit. -/
theorem findFile_eq_along_paths {path : String} (hdir : tree.isDirectoryAt current = true)
    (hnames : ∀ name ∈ current, Nameable name) (habs : Path.isAbsolute path = false)
    (hempty : path ≠ "") (hnul : '\x00' ∉ path.toList)
    (hsize : (pathOf current ++ path).utf8ByteSize < pathLimit) :
    findFile tree current path =
      (((ancestors current).map fun place => pathOf place ++ path).find?
        (tree.isFile current)).bind (tree.find? current) := by
  have hsame : ∀ place ∈ ancestors current,
      tree.find? current (pathOf place ++ path) = tree.find? place path := by
    intro place hplace
    have habove := mem_ancestors_iff.1 hplace
    exact find?_pathOf (fun name hname => hnames name (habove.subset hname))
      (isDirectoryAt_ancestor habove hdir) habs hempty hnul
      ((utf8ByteSize_ancestor habove path).trans_lt hsize) current
  have hfiles : (ancestors current).find? (tree.isFile current ∘ fun place => pathOf place ++ path) =
      (ancestors current).find? (tree.isFile · path) :=
    List.find?_congr fun place hplace => by
      simp only [Function.comp_apply, isFile, hsame place hplace]
  rw [findFile, if_neg (by simp [habs]), List.find?_map, hfiles]
  cases hnearest : (ancestors current).find? (tree.isFile · path) with
  | none => rfl
  | some place => exact (hsame place (nearest_eq_some_iff.1 hnearest).1).symm

/-! ### Loading -/

theorem load_of_nearest (h : (ancestors current).find? (tree.isDirectory · directory) = some place)
    (env : Environment) : load tree current env =
      ofFile (if tree.isFile place workspacePath then tree.find? place workspacePath else none)
        env := by
  rw [load, h]

/-- A file at the end of a path is found there, and not further up. -/
theorem findFile_of_isFile {path : String} (h : tree.isFile current path = true) :
    findFile tree current path = tree.find? current path := by
  unfold findFile
  split
  · rfl
  · have hnearest : (ancestors current).find? (tree.isFile · path) = some current := by
      refine nearest_eq_some_iff.2 ⟨mem_ancestors_iff.2 (List.prefix_refl _), h, ?_⟩
      intro near hnear hlt
      exact absurd (mem_ancestors_iff.1 hnear).length_le (Nat.not_le.2 hlt)
    rw [hnearest]
    rfl

/-- Without a file for settings at or above the current directory, none is found. -/
theorem findFile_of_none (h : (ancestors current).find? (tree.isFile · workspacePath) = none) :
    findFile tree current workspacePath = none := by
  rw [findFile, if_neg (by decide), h]
  rfl

/-- Without a file for settings at or above the current directory, a directory for settings that
may be there leads to the defaults. -/
theorem load_of_none (h : (ancestors current).find? (tree.isFile · workspacePath) = none)
    (env : Environment) : load tree current env = ofLayers (.table []) env := by
  have hnone := List.find?_eq_none.1 h
  cases hdir : (ancestors current).find? (tree.isDirectory · directory) with
  | none =>
    rw [load, hdir, loadFrom, findFile_of_none h]
    rfl
  | some near =>
    rw [load_of_nearest hdir, if_neg (hnone near (nearest_eq_some_iff.1 hdir).1)]
    rfl

/-- A directory for settings below the nearest file for settings hides it. -/
theorem load_of_shadowed {near : Place}
    (h : (ancestors current).find? (tree.isFile · workspacePath) = some place)
    (hnear : near ∈ ancestors current) (hlt : place.length < near.length)
    (hdir : tree.isDirectory near directory = true) (env : Environment) :
    load tree current env = ofLayers (.table []) env := by
  obtain ⟨-, -, hnearer⟩ := nearest_eq_some_iff.1 h
  have hsome : ((ancestors current).find? (tree.isDirectory · directory)).isSome = true :=
    List.find?_isSome.2 ⟨near, hnear, hdir⟩
  obtain ⟨nearest, hnearest⟩ := Option.isSome_iff_exists.1 hsome
  obtain ⟨hmem, -, hfirst⟩ := nearest_eq_some_iff.1 hnearest
  have hle : near.length ≤ nearest.length := by
    by_contra hlonger
    rw [hfirst near hnear (by omega)] at hdir
    cases hdir
  rw [load_of_nearest hnearest, hnearer nearest hmem (by omega)]
  rfl

/-- The nearest file for settings lies in the nearest directory for settings, unless one of these
lies below it. -/
theorem nearest_directory_of_file
    (h : (ancestors current).find? (tree.isFile · workspacePath) = some place)
    (hclear : ∀ near ∈ ancestors current, place.length < near.length →
      tree.isDirectory near directory = false) :
    (ancestors current).find? (tree.isDirectory · directory) = some place := by
  obtain ⟨hmem, hplace, -⟩ := nearest_eq_some_iff.1 h
  exact nearest_eq_some_iff.2 ⟨hmem, isDirectory_of_isFile hplace, hclear⟩

/-- **The nearest workspace counts.** Settings are loaded from the file for settings of the
nearest directory at or above the current one that has such a file, unless a directory for
settings without one lies nearer. Then, and if there is no such file at all, the settings are
the defaults under what the environment sets. -/
theorem load_nearest (h : WorksIn tree current) (env : Environment) :
    load tree current env =
      match (ancestors current).find? fun place => tree.isFile current (settingsPath place) with
      | some place =>
        if ∃ near ∈ ancestors current, place.length < near.length ∧
            tree.isDirectory near directory = true then ofLayers (.table []) env
        else loadFrom tree current (settingsPath place) env
      | none => ofLayers (.table []) env := by
  have hfiles : ((ancestors current).find? fun place => tree.isFile current (settingsPath place)) =
      (ancestors current).find? (tree.isFile · workspacePath) :=
    List.find?_congr fun place hplace => isFile_settingsPath (h.ancestor hplace) current
  rw [hfiles]
  cases hfile : (ancestors current).find? (tree.isFile · workspacePath) with
  | none => exact load_of_none hfile env
  | some place =>
    simp only
    split
    · next hshadowed =>
      obtain ⟨near, hnear, hlt, hdir⟩ := hshadowed
      exact load_of_shadowed hfile hnear hlt hdir env
    · next hshadowed =>
      have hclear (near : Place) (hnear : near ∈ ancestors current)
          (hlt : place.length < near.length) : tree.isDirectory near directory = false :=
        Bool.eq_false_iff.2 fun hdir => hshadowed ⟨near, hnear, hlt, hdir⟩
      have hmem := (nearest_eq_some_iff.1 hfile).1
      rw [loadFrom_settingsPath (h.ancestor hmem),
        load_of_nearest (nearest_directory_of_file hfile hclear)]

/-- A workspace with two directories, one of which has an empty directory for settings. -/
def treeShadowed : FileTree :=
  .directory [(".declink", .directory [("settings.toml", .file (some "version = 2"))]),
    ("a", .directory [(".declink", .directory [])]), ("b", .directory [])]

theorem worksIn_treeShadowed (name : String) (h : name ∈ ["a", "b"]) :
    WorksIn treeShadowed [name] := by
  rcases List.mem_pair.1 h with rfl | rfl <;>
    exact ⟨by decide +kernel, by decide +kernel, by decide +kernel⟩

theorem load_nearest_shadowed :
    WorksIn treeShadowed ["a"] ∧ WorksIn treeShadowed ["b"] ∧
      load treeShadowed ["a"] [] = ofLayers (.table []) [] ∧
      load treeShadowed ["b"] [] = loadFrom treeShadowed ["b"] "/.declink/settings.toml" [] := by
  have hnearest : ∀ name ∈ ["a", "b"], ((ancestors [name]).find? fun place =>
      treeShadowed.isFile [name] (settingsPath place)) = some [] := by
    decide +kernel
  have ha := worksIn_treeShadowed "a" (by simp)
  have hb := worksIn_treeShadowed "b" (by simp)
  refine ⟨ha, hb, ?_, ?_⟩
  · rw [load_nearest ha, hnearest "a" (by simp)]
    exact if_pos (by decide +kernel)
  · rw [load_nearest hb, hnearest "b" (by simp)]
    exact if_neg (by decide +kernel)

theorem find?_treeShadowed :
    treeShadowed.find? [] workspacePath = some (.file (some "version = 2")) := by
  have hfollow : treeShadowed.follow [] workspacePath = .ok [".declink", "settings.toml"] := by
    decide +kernel
  rw [FileTree.find?, hfollow]
  rfl

theorem exists_parse?_versionTwo : ∃ v, Toml.parse? "version = 2" =
    some (Setting.version.single v) ∧ Document.natural32 v = .ok 2 := by
  have hread : (Toml.parse? "version = 2").map
      (·.map fun entry => (entry.1, (Document.natural32 entry.2).toOption)) =
        some [("version", some 2)] := by
    decide +kernel
  obtain ⟨entries, hparse, hentries⟩ := Option.map_eq_some_iff.1 hread
  obtain ⟨⟨name, v⟩, rfl, hentry⟩ := List.map_eq_singleton_iff.1 hentries
  obtain ⟨rfl, hvalue⟩ := Prod.mk.inj hentry
  refine ⟨v, hparse, ?_⟩
  cases hv : Document.natural32 v with
  | ok n => simpa [hv, Except.toOption] using hvalue
  | error m => simp [hv, Except.toOption] at hvalue

/-- **An empty directory for settings hides the file above it:** the nearest file for settings
lies at the root, and is not loaded. -/
theorem not_load_nearest :
    ((ancestors ["a"]).find? fun place => treeShadowed.isFile ["a"] (settingsPath place)) =
        some [] ∧
      load treeShadowed ["a"] [] ≠ loadFrom treeShadowed ["a"] (settingsPath []) [] := by
  have hroot : (ancestors ["a"]).find? (treeShadowed.isFile · workspacePath) = some [] := by
    decide +kernel
  have hnear : ["a"] ∈ ancestors ["a"] := mem_ancestors_iff.2 (List.prefix_refl _)
  have hdefaults : load treeShadowed ["a"] [] = ofLayers (.table []) [] :=
    load_of_shadowed hroot hnear (by decide) (by decide +kernel) []
  have hworks := (worksIn_treeShadowed "a" (by simp)).ancestor (nearest_eq_some_iff.1 hroot).1
  obtain ⟨v, hparse, hv⟩ := exists_parse?_versionTwo
  have hfile : loadFrom treeShadowed ["a"] (settingsPath []) [] =
      ofLayers (.table (Setting.version.single v)) [] := by
    rw [loadFrom_settingsPath hworks, if_pos (nearest_eq_some_iff.1 hroot).2.1, find?_treeShadowed,
      ofFile, hparse]
  have haccepts : Setting.version.Accepts v := by
    refine ⟨?_, _, hv⟩
    rintro entries rfl
    cases hv
  have hset : Setting.WellSet [] := fun v hv => by cases hv
  obtain ⟨s, hload, hget⟩ := Setting.exists_ofLayers Setting.layer_nil hset
  obtain ⟨s', hload', hget'⟩ := Setting.exists_ofLayers (Setting.layer_single haccepts) hset
  have hdefault : s.version = 1 := (Except.ok.inj (hget .version)).symm
  have hread : Document.natural32 v = .ok s'.version := hget' .version
  have hnumber : s'.version = 2 := Except.ok.inj (hread.symm.trans hv)
  refine ⟨by decide +kernel, fun h => ?_⟩
  rw [hdefaults, hfile, hload, hload'] at h
  rw [← Except.ok.inj h, hdefault] at hnumber
  cases hnumber

end Settings

end ModuleGraph
