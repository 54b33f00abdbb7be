/-
# What is served from a file tree

A request is served if a file answers it: what it says, with a suffix if need be, the types
entry of a directory's manifest, or an index file (`FileFetcher.Finds`). So a fetcher that
serves a request serves a text of its tree, under the candidate, under its index file or
under the types entry of a manifest of the tree. It follows a path then, and a path that
is too long leads nowhere: so what was asked for is not longer than a path can be, apart
from a scheme and the slashes it begins with (`Served.length_le`), which do not count
(`basePath?_slashes`). A types entry is known by an identifier in which no row of slashes
is longer than in the request, or than the entry is itself (`rows_identifierFor`).

Key definitions: `FileTree.texts`, `FileFetcher.Finds`, `FileFetcher.Served`.
Key theorems: `FileTree.text_mem`, `FileFetcher.fetch_eq_ok_iff`, `FileFetcher.served_of_fetch`,
`FileFetcher.Served.length_le`, `FileFetcher.basePath?_slashes`,
`FileFetcher.length_identifierFor_le`, `FileFetcher.rows_identifierFor`.
-/
import ModuleGraph.FileFetcher
import ModuleGraph.Proofs.Containment
import ModuleGraph.Proofs.Slashes

namespace ModuleGraph

/-! ### Texts of a tree -/

namespace FileTree

mutual
/-- The texts of the files in a tree. -/
def texts : FileTree → List String
  | file text => text.toList
  | directory entries => textsOf entries

def textsOf : List (String × FileTree) → List String
  | [] => []
  | (_, t) :: rest => texts t ++ textsOf rest
end

theorem texts_subset_textsOf {name : String} {t : FileTree} :
    ∀ {entries : List (String × FileTree)}, Table.get? entries name = some t →
      t.texts ⊆ textsOf entries
  | [], h => by simp at h
  | (key, u) :: rest, h => by
    simp only [Table.get?] at h
    split at h
    · obtain rfl := Option.some.inj h
      exact List.subset_append_left _ _
    · exact List.Subset.trans (texts_subset_textsOf h) (List.subset_append_right _ _)

theorem texts_subset {place : Place} {tree t : FileTree} (h : tree.at? place = some t) :
    t.texts ⊆ tree.texts := by
  induction place generalizing tree with
  | nil =>
    obtain rfl := Option.some.inj h
    exact List.Subset.refl _
  | cons name place ih =>
    obtain ⟨u, hu, ht⟩ := Option.bind_eq_some_iff.1 h
    cases tree with
    | file text => simp [child?] at hu
    | directory entries => exact List.Subset.trans (ih ht) (texts_subset_textsOf hu)

variable {tree : FileTree} {current : Place} {path : String}

theorem text_mem {text : String} (h : tree.text? current path = some text) :
    text ∈ tree.texts := by
  unfold text? find? at h
  split at h
  · next found =>
    split at found
    · subst h
      exact texts_subset found (by simp [texts])
    · simp at found
  · simp at h

/-- A path that leads to something is not too long. -/
theorem size_lt_of_isFile (h : tree.isFile current path = true) :
    path.utf8ByteSize < pathLimit := by
  obtain ⟨place, hplace⟩ := follow_of_isFile h
  exact (follow_eq_ok_iff.1 hplace).2.2.1

theorem size_lt_of_isDirectory (h : tree.isDirectory current path = true) :
    path.utf8ByteSize < pathLimit := by
  obtain ⟨place, hplace⟩ := follow_of_isDirectory h
  exact (follow_eq_ok_iff.1 hplace).2.2.1

end FileTree

namespace FileFetcher

variable {f : FileFetcher} {files : FileTree} {current : Place} {relativePath base path : String}
  {hint : Hint} {fetched : Fetched}

/-! ### The file that answers -/

theorem read_eq_ok_iff {text : String} : read files current path = .ok text ↔
    files.text? current path = some text := by
  unfold read
  split <;> simp_all

/-- The file that answers a request, by its path, and what is reported of it. -/
inductive Finds (f : FileFetcher) (files : FileTree) (current : Place) (relativePath : String) :
    String → Hint → Prop
  /-- What the request says, with a suffix if need be. -/
  | spelled {base path : String} (hbase : f.basePath? relativePath = some base)
      (hpath : (f.spellings base).find? (files.isFile current) = some path) :
      Finds f files current relativePath path .unchanged
  /-- The types entry of a directory's manifest. -/
  | entry {base entry : String} (hbase : f.basePath? relativePath = some base)
      (hnone : (f.spellings base).find? (files.isFile current) = none)
      (hdir : files.isDirectory current base = true)
      (hentry : entry? files current base = .ok (some entry))
      (hfile : files.isFile current (Path.join base entry) = true) :
      Finds f files current relativePath (Path.join base entry)
        (.renamed (f.identifierFor relativePath entry))
  /-- An index file of a directory whose manifest does not name a file. -/
  | index {base path : String} {found : Option String}
      (hbase : f.basePath? relativePath = some base)
      (hnone : (f.spellings base).find? (files.isFile current) = none)
      (hdir : files.isDirectory current base = true)
      (hentry : entry? files current base = .ok found)
      (hmissing : (found.filter fun entry => files.isFile current (Path.join base entry)) = none)
      (hpath : (f.indexFiles base).find? (files.isFile current) = some path) :
      Finds f files current relativePath path .directory

theorem serve_eq_ok_iff : serve files current path hint = .ok fetched ↔
    fetched.hint = hint ∧ read files current path = .ok fetched.text := by
  unfold serve
  cases hread : read files current path with
  | error e => simp [bind, Except.bind]
  | ok text =>
    obtain ⟨text', hint'⟩ := fetched
    simp [bind, Except.bind, pure, Except.pure, and_comm, eq_comm]

/-- What is found is read. -/
theorem Finds.fetch (h : f.Finds files current relativePath path hint) :
    f.fetch files current relativePath = serve files current path hint := by
  cases h with
  | spelled hbase hpath => simp only [FileFetcher.fetch, hbase, hpath]
  | @entry base entry hbase hnone hdir hentry hfile =>
    have hfilter : (some entry).filter (fun entry => files.isFile current (Path.join base entry)) =
        some entry := by simp [hfile]
    simp only [FileFetcher.fetch, fetchDirectory, hbase, hnone, hdir, hentry, hfilter, bind,
      Except.bind, if_true]
  | index hbase hnone hdir hentry hmissing hpath =>
    simp [FileFetcher.fetch, fetchDirectory, hbase, hnone, hdir, hentry, hmissing, hpath, bind,
      Except.bind]

theorem finds_of_fetch (h : f.fetch files current relativePath = .ok fetched) :
    ∃ path, f.Finds files current relativePath path fetched.hint := by
  unfold FileFetcher.fetch at h
  split at h
  · cases h
  · next base hbase =>
    split at h
    · next path hpath =>
      rw [(serve_eq_ok_iff.1 h).1]
      exact ⟨path, .spelled hbase hpath⟩
    · next hnone =>
      split at h
      · next hdir =>
        unfold fetchDirectory at h
        cases hentry : entry? files current base with
        | error e => simp [hentry, bind, Except.bind] at h
        | ok found =>
          simp only [hentry, bind, Except.bind] at h
          split at h
          · next entry hfilter =>
            obtain ⟨rfl, hfile⟩ := Option.filter_eq_some_iff.1 hfilter
            rw [(serve_eq_ok_iff.1 h).1]
            exact ⟨_, .entry hbase hnone hdir hentry hfile⟩
          · next hmissing =>
            split at h
            · next path hpath =>
              rw [(serve_eq_ok_iff.1 h).1]
              exact ⟨path, .index hbase hnone hdir hentry hmissing hpath⟩
            · cases h
      · cases h

/-- What is known under another identifier is a types entry. -/
theorem Finds.entry_of_renamed {identifier : String}
    (h : f.Finds files current relativePath path (.renamed identifier)) :
    ∃ base entry, f.basePath? relativePath = some base ∧
      files.isDirectory current base = true ∧
      entry? files current base = .ok (some entry) ∧
      files.isFile current path = true ∧
      path = Path.join base entry ∧ identifier = f.identifierFor relativePath entry := by
  generalize hhint : Hint.renamed identifier = hint at h
  cases h with
  | spelled hbase hpath => cases hhint
  | entry hbase hnone hdir hentry hfile =>
    exact ⟨_, _, hbase, hdir, hentry, hfile, rfl, Hint.renamed.inj hhint⟩
  | index hbase hnone hdir hentry hmissing hpath => cases hhint

/-- **A request is served exactly if a file answers it that can be read.** -/
theorem fetch_eq_ok_iff : f.fetch files current relativePath = .ok fetched ↔
    ∃ path, f.Finds files current relativePath path fetched.hint ∧
      read files current path = .ok fetched.text := by
  constructor
  · intro h
    obtain ⟨path, hfinds⟩ := finds_of_fetch h
    exact ⟨path, hfinds, (serve_eq_ok_iff.1 (hfinds.fetch.symm.trans h)).2⟩
  · rintro ⟨path, hfinds, hread⟩
    exact hfinds.fetch.trans (serve_eq_ok_iff.2 ⟨rfl, hread⟩)

/-! ### Answers -/

/-- What a fetcher that serves a request has found: a text of its tree, by a path that
is not too long. -/
structure Served (f : FileFetcher) (files : FileTree) (relativePath : String)
    (fetched : Fetched) : Prop where
  text : fetched.text ∈ files.texts
  base : ∃ base, f.basePath? relativePath = some base ∧
    base.utf8ByteSize < FileTree.pathLimit
  hint : fetched.hint = .unchanged ∨ fetched.hint = .directory ∨
    ∃ manifest ∈ files.texts, ∃ entry, entryOfText? manifest = some entry ∧
      fetched.hint = .renamed (f.identifierFor relativePath entry)

theorem read_mem {text : String} (h : read files current path = .ok text) :
    text ∈ files.texts :=
  FileTree.text_mem (read_eq_ok_iff.1 h)

theorem entry?_ok {entry : String} (h : entry? files current base = .ok (some entry)) :
    ∃ manifest ∈ files.texts, entryOfText? manifest = some entry := by
  unfold entry? at h
  simp only at h
  split at h
  · cases hread : read files current (Path.join base "package.json") with
    | error e =>
      rw [hread] at h
      cases h
    | ok manifest =>
      rw [hread] at h
      exact ⟨manifest, read_mem hread, Except.ok.inj h⟩
  · simp at h

/-- The path itself is not longer than what it may be spelled as. -/
theorem size_le_of_mem_spellings (h : path ∈ f.spellings base) :
    base.utf8ByteSize ≤ path.utf8ByteSize := by
  rcases List.mem_cons.1 h with rfl | h
  · exact Nat.le_refl _
  · obtain ⟨suffix, -, rfl⟩ := List.mem_map.1 h
    simp only [String.utf8ByteSize_append]
    omega

theorem served_of_fetch (h : f.fetch files current relativePath = .ok fetched) :
    f.Served files relativePath fetched := by
  obtain ⟨text, hint⟩ := fetched
  obtain ⟨path, hfinds, hread⟩ := fetch_eq_ok_iff.1 h
  cases hfinds with
  | spelled hbase hpath =>
    have hsize := FileTree.size_lt_of_isFile (List.find?_some hpath)
    have hle := size_le_of_mem_spellings (List.mem_of_find?_eq_some hpath)
    exact ⟨read_mem hread, ⟨_, hbase, Nat.lt_of_le_of_lt hle hsize⟩, .inl rfl⟩
  | entry hbase hnone hdir hentry hfile =>
    obtain ⟨manifest, hm, he⟩ := entry?_ok hentry
    exact ⟨read_mem hread, ⟨_, hbase, FileTree.size_lt_of_isDirectory hdir⟩,
      .inr (.inr ⟨manifest, hm, _, he, rfl⟩)⟩
  | index hbase hnone hdir hentry hmissing hpath =>
    exact ⟨read_mem hread, ⟨_, hbase, FileTree.size_lt_of_isDirectory hdir⟩, .inr (.inl rfl)⟩

/-! ### How long a request is -/

theorem length_le_utf8ByteSize (s : String) : s.length ≤ s.utf8ByteSize := by
  suffices ∀ cs : List Char, cs.length ≤ (String.ofList cs).utf8ByteSize by
    have hle := this s.toList
    rwa [String.ofList_toList, String.length_toList] at hle
  intro cs
  induction cs with
  | nil => simp
  | cons c cs ih =>
    have hc := c.utf8Size_pos
    rw [String.ofList_cons, String.utf8ByteSize_append, String.utf8ByteSize_singleton,
      List.length_cons]
    omega

theorem length_le_join (base : String) (path : List Char) :
    path.length ≤ (Path.join base (String.ofList path)).utf8ByteSize := by
  have hlen := length_le_utf8ByteSize (String.ofList path)
  rw [String.length_ofList] at hlen
  unfold Path.join
  split
  · exact hlen
  · split <;> simp only [String.utf8ByteSize_append] <;> omega

variable {k : Nat}

/-- What is asked for is not longer than a path can be, apart from a scheme and the
slashes at its beginning. -/
theorem Served.length_le (h : f.Served files relativePath fetched)
    (hk : Rows k relativePath.toList) :
    relativePath.length ≤ 7 + k + FileTree.pathLimit := by
  obtain ⟨base, hbase, hsize⟩ := h.base
  set path := Text.withoutPrefix scheme relativePath.toList with hpath
  have hscheme : scheme.length = 7 := by decide
  have hlen : relativePath.length ≤ 7 + path.length := by
    rw [hpath, Text.withoutPrefix, ← String.length_toList]
    split
    · rw [List.length_drop]
      omega
    · omega
  have hpart : path <:+: relativePath.toList := by
    rw [hpath, Text.withoutPrefix]
    split
    · exact (List.drop_suffix _ _).isInfix
    · exact List.infix_refl _
  unfold basePath? at hbase
  simp only [← hpath] at hbase
  split at hbase
  · simp at hbase
  · split at hbase
    · have hslashes := (hk.part hpart).length_takeWhile_le
      have hsplit : (path.takeWhile (· == '/')).length + (path.dropWhile (· == '/')).length =
          path.length := by
        rw [← List.length_append, List.takeWhile_append_dropWhile]
      have hjoin := length_le_join f.root (path.dropWhile (· == '/'))
      rw [Option.some.inj hbase] at hjoin
      omega
    · have hjoin := length_le_join (Path.join f.root "node_modules") path
      rw [Option.some.inj hbase] at hjoin
      omega

/-- A path that begins with a slash is the path below the root. -/
theorem basePath?_of_head (f : FileFetcher) {path : String} (h : path.toList.head? = some '/') :
    f.basePath? path = if Path.climbs path then none
      else some (Path.join f.root (String.ofList (path.toList.dropWhile (· == '/')))) := by
  have hscheme : ¬ scheme <+: path.toList :=
    Text.not_prefix_of_head (c := 'f') (by decide) (by simp [h])
  simp only [basePath?, Text.withoutPrefix_of_not hscheme, String.ofList_toList, h, if_true]

/-- Slashes at the beginning of a path do not count, but for the first. -/
theorem basePath?_slashes (f : FileFetcher) (n : Nat) (path : List Char) :
    f.basePath? (String.ofList (List.replicate (n + 1) '/' ++ path)) =
      f.basePath? (String.ofList ('/' :: path)) := by
  have hclimbs : ∀ m, Path.climbs (String.ofList (List.replicate m '/' ++ path)) =
      Path.climbs (String.ofList path) := fun m => by
    simp [Path.climbs, List.map_append, segments_replicate_append, List.contains_eq_mem]
  have hdrop : ∀ m, (List.replicate m '/' ++ path).dropWhile (· == '/') =
      path.dropWhile (· == '/') := fun m => by simp
  have hall : ∀ m, f.basePath? (String.ofList (List.replicate (m + 1) '/' ++ path)) =
      if Path.climbs (String.ofList path) then none
      else some (Path.join f.root (String.ofList (path.dropWhile (· == '/')))) := fun m => by
    rw [f.basePath?_of_head (by simp [List.replicate_succ]), hclimbs, String.toList_ofList, hdrop]
  exact (hall n).trans (hall 0).symm

/-! ### What it is known as -/

theorem withoutDots_suffix (cs : List Char) : withoutDots cs <:+ cs := by
  fun_induction withoutDots cs with
  | case1 rest ih => exact ih.trans ⟨['.', '/'], rfl⟩
  | case2 path => exact List.suffix_refl path

theorem length_withoutSuffix_le {suffix text rest : List Char}
    (h : withoutSuffix suffix text = some rest) : rest.length ≤ text.length := by
  unfold withoutSuffix at h
  split at h
  · rw [← Option.some.inj h]
    exact List.length_take_le' _ _
  · simp at h

/-- The name of a types entry, without its suffix. -/
def entryName (entry : String) : List Char :=
  ((withoutSuffix ".d.ts".toList (withoutDots entry.toList)).orElse fun _ =>
    withoutSuffix ".ts".toList (withoutDots entry.toList)).getD (withoutDots entry.toList)

theorem length_entryName_le (entry : String) : (entryName entry).length ≤ entry.length := by
  have hdots := (withoutDots_suffix entry.toList).length_le
  rw [String.length_toList] at hdots
  unfold entryName
  cases hdts : withoutSuffix ".d.ts".toList (withoutDots entry.toList) with
  | some rest => exact (length_withoutSuffix_le hdts).trans hdots
  | none =>
    cases hts : withoutSuffix ".ts".toList (withoutDots entry.toList) with
    | some rest => simpa [hts] using (length_withoutSuffix_le hts).trans hdots
    | none => simpa [hts] using hdots

/-- A path without the slashes at its end. -/
def withoutEnd (path : List Char) : List Char := (path.reverse.dropWhile (· == '/')).reverse

theorem withoutEnd_begins (path : List Char) : withoutEnd path <+: path := by
  have h := List.reverse_prefix.2 (List.dropWhile_suffix (l := path.reverse) (· == '/'))
  rwa [List.reverse_reverse] at h

theorem withoutEnd_concat {path front : List Char} {c : Char}
    (h : withoutEnd path = front ++ [c]) : c ≠ '/' := by
  have hrev : path.reverse.dropWhile (· == '/') = c :: front.reverse := by
    simpa [withoutEnd] using congrArg List.reverse h
  have hhead := List.head?_dropWhile_not (· == '/') path.reverse
  rw [hrev] at hhead
  simpa using hhead

/-- Whether a path is that of a package, which is known below the root of packages. -/
def known (path : List Char) : Bool := path.head? = some '/' || scheme.isPrefixOf path

theorem identifierFor_eq (f : FileFetcher) (relativePath entry : String) :
    (f.identifierFor relativePath entry).toList =
      (if known (withoutEnd relativePath.toList) then [] else f.dependencyRoot.toList) ++
        withoutEnd relativePath.toList ++ '/' :: entryName entry := by
  simp [identifierFor, known, withoutEnd, entryName]

theorem length_identifierFor_le (f : FileFetcher) (relativePath entry : String) :
    (f.identifierFor relativePath entry).length ≤
      f.dependencyRoot.length + relativePath.length + 1 + entry.length := by
  have hbase := (withoutEnd_begins relativePath.toList).length_le
  have hentry := length_entryName_le entry
  have hroot : (if known (withoutEnd relativePath.toList) then []
      else f.dependencyRoot.toList).length ≤ f.dependencyRoot.length := by
    split
    · exact Nat.zero_le _
    · exact String.length_toList.le
  rw [String.length_toList] at hbase
  rw [← String.length_toList, identifierFor_eq, List.length_append, List.length_append,
    List.length_cons]
  omega

/-- The root of packages is put before what does not begin with a slash. -/
theorem rows_rooted {front : List Char} {c : Char} (hroot : f.dependencyRoot.length ≤ k)
    (hfront : Rows k front) :
    Rows k ((if known (front ++ [c]) then [] else f.dependencyRoot.toList) ++ front) := by
  have hlen : f.dependencyRoot.toList.length = f.dependencyRoot.length := String.length_toList
  by_cases hknown : known (front ++ [c]) = true
  · simpa [hknown] using hfront
  · rw [if_neg hknown]
    cases front with
    | nil =>
      rw [List.append_nil]
      exact rows_of_length (hlen.trans_le hroot)
    | cons x front =>
      have hx : x ≠ '/' := by
        rintro rfl
        simp [known] at hknown
      exact rows_append_cons hx (rows_of_length (hlen.trans_le hroot))
        (hfront.part (List.suffix_cons x front).isInfix)

/-- A types entry makes no row of slashes longer than there was, or than it is long itself
with the root of packages. -/
theorem rows_identifierFor {entry : String}
    (hentry : f.dependencyRoot.length + 1 + entry.length ≤ k)
    (hk : Rows k relativePath.toList) : Rows k (f.identifierFor relativePath entry).toList := by
  have hname := length_entryName_le entry
  have hlen : f.dependencyRoot.toList.length = f.dependencyRoot.length := String.length_toList
  have hbase := hk.part (withoutEnd_begins relativePath.toList).isInfix
  rw [identifierFor_eq]
  rcases List.eq_nil_or_concat' (withoutEnd relativePath.toList) with hnil | ⟨front, c, hc⟩
  · refine rows_of_length ?_
    have hknown : known [] = false := by decide
    simp [hnil, hknown]
    omega
  · have hlast : Rows k ('/' :: entryName entry) := by
      refine rows_of_length ?_
      rw [List.length_cons]
      omega
    rw [hc] at hbase ⊢
    have hfront := hbase.part (List.prefix_append front [c]).isInfix
    have hrooted := rows_rooted (f := f) (c := c) (by omega) hfront
    simpa using rows_append_cons (withoutEnd_concat hc) hrooted hlast

end FileFetcher

end ModuleGraph
