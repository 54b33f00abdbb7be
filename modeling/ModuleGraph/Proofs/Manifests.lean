/-
# Manifests that name no file

A manifest that names no file for types is passed over: the request is answered as if the
manifest were not there (`FileTree.without`), whatever else is wrong with it, whether it is no
document, names nothing, climbs, or names what is not a file (`FileFetcher.Useless`).

One thing is not passed over. A manifest whose bytes are not text is a failure of the request,
even where an index file stands beside it (`FileFetcher.fetch_without_manifest`,
`FileFetcher.broken_by_bytes`).

A file that is taken out of a tree is missed by the paths that led to it, and by no other
(`FileTree.look_without`); and a path that leads to a file ends with the name of the file
(`FileTree.name_suffix_of_follow`), so that no other path of the request is concerned. The
directories above the file are no longer the same, but they look the same from outside
(`FileTree.look`), which is all that is asked of them.

Key definitions: `FileTree.without`, `FileTree.look`, `FileFetcher.Useless`,
`FileFetcher.Unread`.
Key theorems: `FileTree.at?_without`, `FileTree.followAll_without`, `FileTree.look_without`,
`FileTree.name_suffix_of_follow`, `FileFetcher.look_without_manifest`,
`FileFetcher.fetch_without_manifest`.
-/
import ModuleGraph.Proofs.Precedence

namespace ModuleGraph

open Text

namespace FileTree

/-! ### What paths show -/

/-- What is seen of a tree from outside: the contents of a file, and of a directory that it
is one. -/
def face : FileTree → Option (Option String)
  | file content => some content
  | directory _ => none

/-- What is seen at the end of a path. -/
def look (tree : FileTree) (current : Place) (path : String) : Option (Option (Option String)) :=
  (tree.find? current path).map face

section

variable {tree tree' : FileTree} {current : Place} {path : String}

theorem isFile_of_look (h : tree.look current path = tree'.look current path) :
    tree.isFile current path = tree'.isFile current path := by
  have hface (t : FileTree) : t.isFile current path =
      ((t.look current path).bind id).isSome := by
    unfold isFile look
    cases t.find? current path with
    | none => rfl
    | some found => cases found <;> rfl
  rw [hface, hface, h]

theorem isDirectory_of_look (h : tree.look current path = tree'.look current path) :
    tree.isDirectory current path = tree'.isDirectory current path := by
  have hface (t : FileTree) : t.isDirectory current path =
      decide (t.look current path = some none) := by
    unfold isDirectory look
    cases t.find? current path with
    | none => rfl
    | some found => cases found <;> rfl
  rw [hface, hface, h]

theorem text?_of_look (h : tree.look current path = tree'.look current path) :
    tree.text? current path = tree'.text? current path := by
  have hface (t : FileTree) : t.text? current path =
      ((t.look current path).bind id).bind id := by
    unfold text? look
    cases t.find? current path with
    | none => rfl
    | some found => cases found <;> rfl
  rw [hface, hface, h]

end

/-! ### Taking a file away -/

/-- The tree without an entry of the directory at a place. -/
def without : FileTree → Place → String → FileTree
  | file content, _, _ => file content
  | directory entries, [], name => directory (Table.remove name entries)
  | directory entries, key :: dir, name =>
    match Table.get? entries key with
    | some t => directory (Table.put key (without t dir name) entries)
    | none => directory entries

section

variable {tree : FileTree} {current dir : Place} {path name : String} {content : Option String}

/-- **A file that is taken away is missing at its place, and all else looks as before.** -/
theorem at?_without (h : tree.at? (dir ++ [name]) = some (file content)) (place : Place) :
    ((tree.without dir name).at? place).map face =
      if place = dir ++ [name] then none else (tree.at? place).map face := by
  induction dir generalizing tree place with
  | nil =>
    obtain ⟨t, ht, hfile⟩ := Option.bind_eq_some_iff.1 h
    obtain rfl := Option.some.inj hfile
    cases tree with
    | file text => simp [child?] at ht
    | directory entries =>
      cases place with
      | nil => simp [without, at?, face]
      | cons key place =>
        by_cases hkey : key = name
        · subst hkey
          -- below a file there is nothing
          have hget : Table.get? entries key = some (file content) := ht
          cases place <;> simp [without, at?, child?, Table.get?_remove, hget]
        · simp [without, at?, child?, Table.get?_remove, hkey, Ne.symm hkey]
  | cons key dir ih =>
    obtain ⟨t, ht, hfile⟩ := Option.bind_eq_some_iff.1 h
    cases tree with
    | file text => simp [child?] at ht
    | directory entries =>
      have hget : Table.get? entries key = some t := ht
      cases place with
      | nil => simp [without, hget, at?, face]
      | cons key' place =>
        by_cases hkey : key' = key
        · subst hkey
          simpa [without, hget, at?, child?, Table.get?_put] using ih hfile place
        · simp [without, hget, at?, child?, Table.get?_put, hkey, Ne.symm hkey]

theorem isDirectoryAt_eq (tree : FileTree) (place : Place) :
    tree.isDirectoryAt place = decide ((tree.at? place).map face = some none) := by
  unfold isDirectoryAt
  cases tree.at? place with
  | none => rfl
  | some t => cases t <;> rfl

theorem isDirectoryAt_of_file {place : Place} (h : tree.at? place = some (file content)) :
    tree.isDirectoryAt place = false := by
  simp [isDirectoryAt, h]

theorem isDirectoryAt_without (h : tree.at? (dir ++ [name]) = some (file content))
    (place : Place) : (tree.without dir name).isDirectoryAt place = tree.isDirectoryAt place := by
  by_cases hplace : place = dir ++ [name]
  · rw [isDirectoryAt_eq, at?_without h, if_pos hplace, hplace, isDirectoryAt_of_file h]
    rfl
  · rw [isDirectoryAt_eq, isDirectoryAt_eq, at?_without h, if_neg hplace]

/-- A step is taken as before, unless it led to the file. -/
theorem step_without (h : tree.at? (dir ++ [name]) = some (file content)) (place : Place)
    (s : String) : (tree.without dir name).step place s = tree.step place s ∨
      tree.step place s = .ok (dir ++ [name]) ∧
        ∃ e, (tree.without dir name).step place s = .error e := by
  have hsome (place : Place) (hplace : place ≠ dir ++ [name]) :
      ((tree.without dir name).at? place).isSome = (tree.at? place).isSome := by
    have hface := at?_without h place
    rw [if_neg hplace] at hface
    simpa using congrArg Option.isSome hface
  by_cases hnext : place ++ [s] = dir ++ [name]
  · obtain ⟨rfl, rfl⟩ : place = dir ∧ s = name := by simpa using hnext
    have hgone : (tree.without place s).at? (place ++ [s]) = none := by
      simpa using at?_without h (place ++ [s])
    unfold step
    rw [isDirectoryAt_without h, hgone, h]
    split
    · simp
    · split
      · simp
      · split
        · simp
        · split <;> simp
  · left
    unfold step
    rw [isDirectoryAt_without h, hsome _ hnext]

theorem followAll_singleton (tree : FileTree) (place : Place) (s : String) :
    tree.followAll place [s] = tree.step place s := by
  simp only [followAll, bind, Except.bind]
  cases tree.step place s <;> rfl

/-- Nothing is reached from a file. -/
theorem followAll_of_file {place place' : Place} (h : tree.isDirectoryAt place = false)
    {ss : List String} (hall : tree.followAll place ss = .ok place') : place' = place := by
  cases ss with
  | nil => exact (Except.ok.inj hall).symm
  | cons s ss => simp [followAll, step, h, bind, Except.bind] at hall

theorem followAll_without (h : tree.at? (dir ++ [name]) = some (file content)) {place' : Place}
    (hne : place' ≠ dir ++ [name]) (place : Place) (ss : List String) :
    (tree.without dir name).followAll place ss = .ok place' ↔
      tree.followAll place ss = .ok place' := by
  induction ss generalizing place with
  | nil => rfl
  | cons s ss ih =>
    simp only [followAll, bind, Except.bind]
    rcases step_without h place s with hstep | ⟨hstep, e, hgone⟩
    · rw [hstep]
      cases tree.step place s with
      | error e => rfl
      | ok next => exact ih next
    · rw [hstep, hgone]
      constructor
      · intro he
        cases he
      · intro hall
        exact absurd (followAll_of_file (isDirectoryAt_of_file h) hall) hne

theorem follow_without (h : tree.at? (dir ++ [name]) = some (file content)) {place : Place}
    (hne : place ≠ dir ++ [name]) (current : Place) (path : String) :
    (tree.without dir name).follow current path = .ok place ↔
      tree.follow current path = .ok place := by
  simp only [follow_eq_ok_iff, followAll_without h hne]

theorem find?_without_eq_none (h : tree.at? (dir ++ [name]) = some (file content))
    (hnone : ∀ place, place ≠ dir ++ [name] → tree.follow current path ≠ .ok place) :
    (tree.without dir name).find? current path = none := by
  unfold find?
  split
  · next place hplace =>
    by_cases hne : place = dir ++ [name]
    · simpa [hne] using at?_without h place
    · exact absurd ((follow_without h hne current path).1 hplace) (hnone place hne)
  · rfl

/-- **A file that is taken away is missed by the paths that led to it,** and by no other. -/
theorem look_without (h : tree.at? (dir ++ [name]) = some (file content)) :
    (tree.without dir name).look current path =
      if tree.follow current path = .ok (dir ++ [name]) then none else tree.look current path := by
  cases hfollow : tree.follow current path with
  | ok place =>
    by_cases hplace : place = dir ++ [name]
    · have hgone := find?_without_eq_none h fun place' hne he =>
        hne ((Except.ok.inj (hfollow.symm.trans he)).symm.trans hplace)
      rw [look, hgone, hplace, if_pos rfl]
      rfl
    · have hsame := (follow_without h hplace current path).2 hfollow
      simp [look, find?, hfollow, hsame, hplace, at?_without h]
  | error e =>
    have hnone (place : Place) (_ : place ≠ dir ++ [name]) :
        tree.follow current path ≠ .ok place := by simp [hfollow]
    rw [look, find?_without_eq_none h hnone]
    simp [look, find?, hfollow]

end

/-! ### Names of files -/

theorem exists_last_segment (cs : List Char) :
    ∃ front last, segments cs = front ++ [last] ∧ last <:+ cs := by
  obtain ⟨front, hfront⟩ := segments_rdropWhile_append cs
  have hsplit := hfront (cs.rtakeWhile (· ≠ '/'))
  rw [List.rdropWhile_append_rtakeWhile, segments_rtakeWhile] at hsplit
  exact ⟨front, _, hsplit, List.rtakeWhile_suffix _ cs⟩

/-- A path has a last step, and ends with it. -/
theorem exists_last_step (current : Place) (path : String) :
    ∃ front last, (stepsFrom current path).2 = front ++ [last] ∧
      last.toList <:+ path.toList := by
  unfold stepsFrom
  split
  · next habs =>
    obtain ⟨rest, hrest⟩ : ∃ rest, path.toList = '/' :: rest :=
      ⟨_, List.eq_cons_of_mem_head? ((Path.isAbsolute_iff path).1 habs)⟩
    obtain ⟨front, last, hsegments, hlast⟩ := exists_last_segment rest
    refine ⟨front.map String.ofList, String.ofList last, ?_, ?_⟩
    · simp [Path.parts, hrest, segments, hsegments]
    · rw [String.toList_ofList, hrest]
      exact hlast.trans (List.suffix_cons _ _)
  · obtain ⟨front, last, hsegments, hlast⟩ := exists_last_segment path.toList
    refine ⟨front.map String.ofList, String.ofList last, ?_, ?_⟩
    · simp [Path.parts, hsegments]
    · rwa [String.toList_ofList]

section

variable {tree : FileTree} {current place place' dir : Place} {path name : String}
  {content : Option String}

theorem isDirectoryAt_of_step {s : String} (h : tree.step place s = .ok place') :
    tree.isDirectoryAt place = true := by
  cases hdir : tree.isDirectoryAt place with
  | true => rfl
  | false => simp [step, hdir] at h

/-- Above a directory there is a directory. -/
theorem isDirectoryAt_dropLast (h : tree.isDirectoryAt place = true) :
    tree.isDirectoryAt place.dropLast = true := by
  induction place generalizing tree with
  | nil => exact h
  | cons key place ih =>
    cases tree with
    | file text => simp [isDirectoryAt, at?, child?] at h
    | directory entries =>
      cases place with
      | nil => rfl
      | cons name place =>
        cases hchild : Table.get? entries key with
        | none => simp [isDirectoryAt, at?, child?, hchild] at h
        | some t =>
          have hbelow : t.isDirectoryAt (name :: place).dropLast = true :=
            ih (by simpa [isDirectoryAt, at?, child?, hchild] using h)
          simpa [isDirectoryAt, at?, child?, hchild] using hbelow

/-- What has something in it is a directory. -/
theorem isDirectoryAt_of_at? {t : FileTree} (h : tree.at? (place ++ [name]) = some t) :
    tree.isDirectoryAt place = true := by
  induction place generalizing tree with
  | nil =>
    obtain ⟨u, hu, -⟩ := Option.bind_eq_some_iff.1 h
    cases tree with
    | file text => simp [child?] at hu
    | directory entries => rfl
  | cons key place ih =>
    obtain ⟨u, hu, hbelow⟩ := Option.bind_eq_some_iff.1 h
    simpa [isDirectoryAt, at?, hu] using ih hbelow

/-- A path that leads to a file ends with its name. -/
theorem name_suffix_of_follow (h : tree.follow current path = .ok (dir ++ [name]))
    (hfile : tree.at? (dir ++ [name]) = some (file content)) : name.toList <:+ path.toList := by
  obtain ⟨front, last, hsteps, hlast⟩ := exists_last_step current path
  have hall := follow_ok h
  rw [hsteps, followAll_append] at hall
  cases hfront : tree.followAll (stepsFrom current path).1 front with
  | error e => simp [hfront, Except.bind] at hall
  | ok place =>
    have hstep : tree.step place last = .ok (dir ++ [name]) := by
      rwa [hfront, Except.bind, followAll_singleton] at hall
    have hdir := isDirectoryAt_of_step hstep
    rcases step_ok hstep with ⟨-, hplace⟩ | ⟨-, hplace⟩ | ⟨-, -, -, hplace⟩
    · rw [← hplace, isDirectoryAt_of_file hfile] at hdir
      cases hdir
    · have habove := isDirectoryAt_dropLast hdir
      rw [← hplace, isDirectoryAt_of_file hfile] at habove
      cases habove
    · obtain ⟨-, rfl⟩ : dir = place ∧ name = last := by simpa using hplace
      exact hlast

end

end FileTree

namespace FileFetcher

/-- The manifest of a directory names no file for types: it is not a text, or no document, or
names nothing, or names what climbs or is not a file. -/
def Useless (files : FileTree) (current : Place) (base : String) (content : Option String) :
    Prop :=
  ∀ text entry, content = some text → Declares text entry → Path.climbs entry = false →
    files.isFile current (Path.join base entry) = false

/-- The manifest of a directory is asked for, and is not a text. It is asked for if the request
stands for no file, and the path of the manifest is not too long. -/
structure Unread (f : FileFetcher) (files : FileTree) (current : Place) (base : String)
    (content : Option String) : Prop where
  not_text : content = none
  not_spelled : (f.spellings base).find? (files.isFile current) = none
  isFile : files.isFile current (Path.join base "package.json") = true

variable {f : FileFetcher} {files : FileTree} {current dir : Place}
  {relativePath base path : String} {content : Option String}

/-! ### The manifest of a directory -/

theorem follow_manifest {place : Place} (hbase : files.follow current base = .ok dir)
    (h : files.follow current (Path.join base "package.json") = .ok place) :
    place = dir ++ ["package.json"] := by
  have hparts : Path.parts "package.json" = ["package.json"] := by decide
  have hstep : files.step dir "package.json" = .ok place := by
    have hall := FileTree.follow_ok h
    rwa [FileTree.followAll_steps_join base (by decide), FileTree.follow_ok hbase, Except.bind,
      hparts, FileTree.followAll_singleton] at hall
  rcases FileTree.step_ok hstep with ⟨hs, -⟩ | ⟨hs, -⟩ | ⟨-, -, -, hplace⟩
  · simp at hs
  · simp at hs
  · exact hplace

theorem text?_manifest (hbase : files.follow current base = .ok dir)
    (hmanifest : files.at? (dir ++ ["package.json"]) = some (.file content))
    (hfile : files.isFile current (Path.join base "package.json") = true) :
    files.text? current (Path.join base "package.json") = content := by
  obtain ⟨place, hfollow⟩ := FileTree.follow_of_isFile hfile
  obtain rfl := follow_manifest hbase hfollow
  simp [FileTree.text?, FileTree.find?, hfollow, hmanifest]

/-- A manifest without use leads to no file, unless it cannot be read. -/
theorem entry?_of_useless (hbase : files.follow current base = .ok dir)
    (hmanifest : files.at? (dir ++ ["package.json"]) = some (.file content))
    (huseless : Useless files current base content)
    (hread : content = none → files.isFile current (Path.join base "package.json") = false) :
    ∃ found, entry? files current base = .ok found ∧
      (found.filter fun entry => files.isFile current (Path.join base entry)) = none := by
  cases hfile : files.isFile current (Path.join base "package.json") with
  | false => exact ⟨none, entry?_of_not_isFile hfile, rfl⟩
  | true =>
    have htext := text?_manifest hbase hmanifest hfile
    cases content with
    | none =>
      rw [hread rfl] at hfile
      cases hfile
    | some text =>
      refine ⟨_, entry?_of_text? htext, Option.filter_eq_none_iff.2 fun entry hentry => ?_⟩
      obtain ⟨hdeclares, hclimbs⟩ := entryOfText?_eq_some_iff.1 hentry
      simpa using huseless text entry rfl hdeclares hclimbs

/-- A manifest that is taken away is no longer asked. -/
theorem entry?_without (hbase : files.follow current base = .ok dir)
    (hmanifest : files.at? (dir ++ ["package.json"]) = some (.file content)) :
    entry? (files.without dir "package.json") current base = .ok none := by
  have hgone : (files.without dir "package.json").look current
      (Path.join base "package.json") = none := by
    rw [FileTree.look_without hmanifest]
    split
    · rfl
    · next hnot =>
      cases hfollow : files.follow current (Path.join base "package.json") with
      | ok place => exact absurd (follow_manifest hbase hfollow ▸ hfollow) hnot
      | error e => simp [FileTree.look, FileTree.find?, hfollow]
  refine entry?_of_not_isFile ?_
  rw [FileTree.look, Option.map_eq_none_iff] at hgone
  simp [FileTree.isFile, hgone]

/-! ### The other paths of a request -/

theorem getLast?_append_suffix {suffix : String} (h : suffix ∈ f.suffixes) (front : List Char) :
    (front ++ suffix.toList).getLast? = some 's' := by
  have hlast : suffix.toList.getLast? = some 's' := by
    rcases List.mem_cons.1 h with rfl | h
    · decide
    · obtain rfl := List.mem_singleton.1 h
      cases f.language <;> decide
  rw [List.getLast?_append, hlast]
  rfl

theorem getLast?_of_mem_spellings (h : path ∈ f.spellings base) :
    path = base ∨ path.toList.getLast? = some 's' := by
  rcases List.mem_cons.1 h with rfl | h
  · exact .inl rfl
  · obtain ⟨suffix, hsuffix, rfl⟩ := List.mem_map.1 h
    rw [String.toList_append]
    exact .inr (getLast?_append_suffix hsuffix _)

theorem getLast?_of_mem_indexFiles (h : path ∈ f.indexFiles base) :
    path.toList.getLast? = some 's' := by
  obtain ⟨suffix, hsuffix, rfl⟩ := List.mem_map.1 h
  have hrelative : Path.isAbsolute ("index." ++ suffix) = false := by simp [Path.isAbsolute]
  rw [Path.toList_join base hrelative, String.toList_append, ← List.append_assoc]
  exact getLast?_append_suffix hsuffix _

theorem getLast?_of_manifest {cs : List Char} (h : "package.json".toList <:+ cs) :
    cs.getLast? = some 'n' := by
  obtain ⟨front, rfl⟩ := h
  simp

/-- No other path of the request leads to the manifest. -/
theorem look_without_manifest (hbase : files.follow current base = .ok dir)
    (hmanifest : files.at? (dir ++ ["package.json"]) = some (.file content))
    (hpath : path = base ∨ path.toList.getLast? = some 's') :
    (files.without dir "package.json").look current path = files.look current path := by
  rw [FileTree.look_without hmanifest, if_neg]
  intro hfollow
  rcases hpath with rfl | hlast
  · simpa using hbase.symm.trans hfollow
  · have hend := getLast?_of_manifest (FileTree.name_suffix_of_follow hfollow hmanifest)
    simp [hlast] at hend

/-- What looks alike is served alike. -/
theorem serve_of_look {files' : FileTree} (h : files.look current path = files'.look current path)
    (hint : Hint) : serve files current path hint = serve files' current path hint := by
  simp only [serve, read, FileTree.text?_of_look h]

theorem find?_of_look {files' : FileTree} {paths : List String}
    (h : ∀ path ∈ paths, files.look current path = files'.look current path) :
    paths.find? (files.isFile current) = paths.find? (files'.isFile current) :=
  List.find?_congr fun path hpath => FileTree.isFile_of_look (h path hpath)

/-! ### A directory without its manifest -/

/-- What a directory answers with its index files. -/
def fetchIndex (f : FileFetcher) (files : FileTree) (current : Place)
    (relativePath base : String) : Except FetchError Fetched :=
  match (f.indexFiles base).find? (files.isFile current) with
  | some path => serve files current path .directory
  | none => .error (.notFound relativePath)

/-- What a request is answered with if its directory has no types entry. -/
def fetchWithoutEntry (f : FileFetcher) (files : FileTree) (current : Place)
    (relativePath base : String) : Except FetchError Fetched :=
  match (f.spellings base).find? (files.isFile current) with
  | some path => serve files current path .unchanged
  | none => f.fetchIndex files current relativePath base

theorem fetchIndex_of_look {files' : FileTree} (h : ∀ path ∈ f.indexFiles base,
      files.look current path = files'.look current path) :
    f.fetchIndex files current relativePath base =
      f.fetchIndex files' current relativePath base := by
  unfold fetchIndex
  rw [← find?_of_look h]
  split
  · next path hpath => exact serve_of_look (h path (List.mem_of_find?_eq_some hpath)) _
  · rfl

theorem fetchWithoutEntry_of_look {files' : FileTree}
    (h : ∀ path ∈ f.spellings base ++ f.indexFiles base,
      files.look current path = files'.look current path) :
    f.fetchWithoutEntry files current relativePath base =
      f.fetchWithoutEntry files' current relativePath base := by
  have hspelled : ∀ path ∈ f.spellings base,
      files.look current path = files'.look current path :=
    fun path hpath => h path (List.mem_append_left _ hpath)
  unfold fetchWithoutEntry
  rw [← find?_of_look hspelled]
  split
  · next path hpath => exact serve_of_look (hspelled path (List.mem_of_find?_eq_some hpath)) _
  · exact fetchIndex_of_look fun path hpath => h path (List.mem_append_right _ hpath)

theorem fetch_eq_fetchWithoutEntry {found : Option String}
    (hbase : f.basePath? relativePath = some base)
    (hdir : files.isDirectory current base = true)
    (hentry : entry? files current base = .ok found)
    (hmissing : (found.filter fun entry =>
      files.isFile current (Path.join base entry)) = none) :
    f.fetch files current relativePath = f.fetchWithoutEntry files current relativePath base := by
  have hindex : f.fetchDirectory files current relativePath base =
      f.fetchIndex files current relativePath base := by
    cases hpath : (f.indexFiles base).find? (files.isFile current) <;>
      simp only [fetchDirectory, fetchIndex, hentry, hmissing, hpath, bind, Except.bind]
  cases hpath : (f.spellings base).find? (files.isFile current) with
  | some path => simp only [FileFetcher.fetch, fetchWithoutEntry, hbase, hpath]
  | none => simp only [FileFetcher.fetch, fetchWithoutEntry, hbase, hpath, hdir, if_true, hindex]

theorem Unread.fetch (h : f.Unread files current base content)
    (hbase : f.basePath? relativePath = some base)
    (hdir : files.isDirectory current base = true)
    (htext : files.text? current (Path.join base "package.json") = content) :
    f.fetch files current relativePath =
      .error (unreadable (Path.join base "package.json")) := by
  have hentry := entry?_of_unreadable h.isFile (htext.trans h.not_text)
  simp only [FileFetcher.fetch, fetchDirectory, hbase, h.not_spelled, hdir, if_true, hentry, bind,
    Except.bind]

/-- The failure of a manifest is not the failure of an index file. -/
theorem fetchIndex_ne_unreadable : f.fetchIndex files current relativePath base ≠
    .error (unreadable (Path.join base "package.json")) := by
  intro h
  unfold fetchIndex at h
  split at h
  · next path hpath =>
    have hlast := getLast?_of_mem_indexFiles (List.mem_of_find?_eq_some hpath)
    have hmanifest : (Path.join base "package.json").toList.getLast? = some 'n' := by
      rw [Path.toList_join base (by decide)]
      exact getLast?_of_manifest (List.suffix_append _ _)
    cases htext : files.text? current path with
    | some text => simp [serve, read, htext, bind, Except.bind, pure, Except.pure] at h
    | none =>
      obtain rfl : path = Path.join base "package.json" := by
        simpa [serve, read, htext, bind, Except.bind, unreadable] using h
      simp [hlast] at hmanifest
  · simp [unreadable] at h

/-- **A manifest that names no file is passed over, if it can be read.** A directory answers
as if such a manifest were not there, exactly unless the manifest is asked for and is not a
text: then the request fails on it, whatever else is in the directory. -/
theorem fetch_without_manifest (hbase : f.basePath? relativePath = some base)
    (hdir : files.follow current base = .ok dir)
    (hmanifest : files.at? (dir ++ ["package.json"]) = some (.file content))
    (huseless : Useless files current base content) :
    (f.fetch files current relativePath =
        f.fetch (files.without dir "package.json") current relativePath ↔
      ¬ f.Unread files current base content) ∧
    (f.Unread files current base content →
      f.fetch files current relativePath =
        .error (unreadable (Path.join base "package.json"))) := by
  have hlook : ∀ path ∈ f.spellings base ++ f.indexFiles base,
      (files.without dir "package.json").look current path = files.look current path := by
    intro path hpath
    refine look_without_manifest hdir hmanifest ?_
    rcases List.mem_append.1 hpath with hpath | hpath
    · exact getLast?_of_mem_spellings hpath
    · exact .inr (getLast?_of_mem_indexFiles hpath)
  have hdirectory : files.isDirectory current base = true := by
    simpa [FileTree.isDirectory, FileTree.find?, FileTree.isDirectoryAt, hdir] using
      FileTree.isDirectoryAt_of_at? hmanifest
  have hwithout : f.fetch (files.without dir "package.json") current relativePath =
      f.fetchWithoutEntry files current relativePath base := by
    rw [← fetchWithoutEntry_of_look hlook]
    have hsame := hlook base (List.mem_append_left _ (List.mem_cons_self ..))
    have hentry := entry?_without hdir hmanifest
    exact fetch_eq_fetchWithoutEntry hbase ((FileTree.isDirectory_of_look hsame).trans hdirectory)
      hentry rfl
  have hunread (h : f.Unread files current base content) : f.fetch files current relativePath =
      .error (unreadable (Path.join base "package.json")) :=
    h.fetch hbase hdirectory (text?_manifest hdir hmanifest h.isFile)
  refine ⟨⟨fun hsame h => ?_, fun hread => ?_⟩, hunread⟩
  · rw [hunread h, hwithout, fetchWithoutEntry, h.not_spelled] at hsame
    exact fetchIndex_ne_unreadable hsame.symm
  · rw [hwithout]
    cases hspelled : (f.spellings base).find? (files.isFile current) with
    | some path => simp only [FileFetcher.fetch, fetchWithoutEntry, hbase, hspelled]
    | none =>
      obtain ⟨found, hentry, hmissing⟩ := entry?_of_useless hdir hmanifest huseless fun hnone => by
        by_contra hfile
        exact hread ⟨hnone, hspelled, by simpa using hfile⟩
      exact fetch_eq_fetchWithoutEntry hbase hdirectory hentry hmissing

/-- The place of the package `lib` in a project. -/
def placeOfLib : Place := ["project", "node_modules", "lib"]

/-- A manifest that names a missing file is passed over. -/
theorem fetch_without_manifest_choices :
    fetcherOfProject.basePath? "lib" = some "/project/node_modules/lib" ∧
      treeOfChoices.follow [] "/project/node_modules/lib" = .ok placeOfLib ∧
      treeOfChoices.at? (placeOfLib ++ ["package.json"]) =
        some (.file (some (manifestNaming "./missing.d.ts"))) ∧
      Useless treeOfChoices [] "/project/node_modules/lib"
        (some (manifestNaming "./missing.d.ts")) ∧
      fetcherOfProject.fetch treeOfChoices [] "lib" =
        fetcherOfProject.fetch (treeOfChoices.without placeOfLib "package.json") [] "lib" := by
  have hfollow : treeOfChoices.follow [] "/project/node_modules/lib" = .ok placeOfLib := by
    decide +kernel
  have hmanifest : treeOfChoices.at? (placeOfLib ++ ["package.json"]) =
      some (.file (some (manifestNaming "./missing.d.ts"))) := rfl
  have hentry : entryOfText? (manifestNaming "./missing.d.ts") = some "./missing.d.ts" := by
    decide +kernel
  have huseless : Useless treeOfChoices [] "/project/node_modules/lib"
      (some (manifestNaming "./missing.d.ts")) := by
    intro text entry htext hdeclares hclimbs
    obtain rfl := Option.some.inj htext
    obtain rfl : "./missing.d.ts" = entry := by
      simpa [hentry] using entryOfText?_eq_some_iff.2 ⟨hdeclares, hclimbs⟩
    decide +kernel
  exact ⟨basePath?_project, hfollow, hmanifest, huseless,
    (fetch_without_manifest basePath?_project hfollow hmanifest huseless).1.2
      fun hunread => nomatch hunread.not_text⟩

/-- A package with an index file, and a manifest that is not a text. -/
def treeOfBytes : FileTree :=
  .directory [("project", .directory [("node_modules", .directory [("lib", .directory
    [("package.json", .file none), ("index.d.ts", .file (some "export const a: 1;"))])])])]

/-- A manifest whose bytes are not a text breaks its package: without it the index file would
be served. -/
theorem broken_by_bytes :
    fetcherOfProject.basePath? "lib" = some "/project/node_modules/lib" ∧
      treeOfBytes.follow [] "/project/node_modules/lib" = .ok placeOfLib ∧
      treeOfBytes.at? (placeOfLib ++ ["package.json"]) = some (.file none) ∧
      Useless treeOfBytes [] "/project/node_modules/lib" none ∧
      (treeOfBytes.without placeOfLib "package.json").isText = true ∧
      fetcherOfProject.fetch treeOfBytes [] "lib" =
        .error (unreadable "/project/node_modules/lib/package.json") ∧
      fetcherOfProject.fetch (treeOfBytes.without placeOfLib "package.json") [] "lib" =
        .ok ⟨"export const a: 1;", .directory⟩ :=
  ⟨basePath?_project, by decide +kernel, rfl, fun _ _ htext => (nomatch htext), by decide,
    by decide +kernel, by decide +kernel⟩

end FileFetcher

end ModuleGraph
