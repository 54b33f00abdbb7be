/-
# Files that are found again

A file that was served is loaded under an identifier, and what it imports is resolved from
there. So the identifier should be the file's own: asked for without the root of packages,
it should be answered by the same file, and be right as it is.

It is when the candidate is right and does not assume an entry point, when an index file is
served, unless a file without suffix takes its name, and when a types entry is served that
is relative, has a suffix of the language and is the first file of its name
(`FileFetcher.found_again`). The identifier of a types entry has lost its suffix, whatever
that was, and that of a whole package says that its file is in a directory, whether or not
it is (`FileFetcher.lost_in_javascript`).

Key definitions: `FileFetcher.Named`, `FileFetcher.entrySuffix`, `FileFetcher.LeadsBack`.
Key theorems: `FileTree.follow_of_stays`, `FileFetcher.basePath?_enter`,
`FileFetcher.basePath?_withoutEnd`, `FileFetcher.find?_entry`, `FileFetcher.found_again`.
-/
import Mathlib.Data.List.TakeWhile
import ModuleGraph.Proofs.Location

namespace ModuleGraph

open Text

/-! ### Texts in a directory -/

namespace Path

theorem enter_append_of_ne_nil {path : List Char} (base : List Char) (h : path ≠ []) :
    enter (base ++ path) = base ++ enter path := by
  obtain ⟨front, c, rfl⟩ := (List.eq_nil_or_concat' path).resolve_left h
  by_cases hc : c = '/' <;> simp [enter, ← List.append_assoc, hc]

theorem enter_of_concat {path : List Char} (hne : path ≠ []) (hlast : path.getLast? ≠ some '/') :
    enter path = path ++ ['/'] := by
  simp [enter, hne, hlast]

theorem enter_slashes (path : List Char) (n : Nat) :
    enter (path ++ List.replicate (n + 1) '/') = path ++ '/' :: List.replicate n '/' := by
  have hlast : (path ++ List.replicate (n + 1) '/').getLast? = some '/' := by
    simp [List.replicate_succ']
  rw [enter, if_pos (.inr hlast), List.replicate_succ]

/-- A path climbs if one of its parts does. -/
theorem not_climbs_append_cons_slash (a b : List Char) :
    climbs (String.ofList (a ++ '/' :: b)) = false ↔
      climbs (String.ofList a) = false ∧ climbs (String.ofList b) = false := by
  simp [climbs, segments_append_cons_slash]

/-- A name that does not climb, in a directory that does not. -/
theorem not_climbs_enter {path name : List Char} (h : climbs (String.ofList path) = false)
    (hname : climbs (String.ofList name) = false) :
    climbs (String.ofList (enter path ++ name)) = false := by
  by_cases hne : path = []
  · simpa [hne] using hname
  · by_cases hlast : path.getLast? = some '/'
    · obtain ⟨front, rfl⟩ := List.getLast?_eq_some_iff.1 hlast
      have hfront := ((not_climbs_append_cons_slash front []).1 h).1
      rw [enter, if_pos (.inr hlast), List.append_assoc, List.singleton_append]
      exact (not_climbs_append_cons_slash front name).2 ⟨hfront, hname⟩
    · rw [enter_of_concat hne hlast, List.append_assoc, List.singleton_append]
      exact (not_climbs_append_cons_slash path name).2 ⟨h, hname⟩

theorem not_climbs_of_slashes {path : List Char} {n : Nat}
    (h : climbs (String.ofList (path ++ List.replicate n '/')) = false) :
    climbs (String.ofList path) = false := by
  cases n with
  | zero => simpa using h
  | succ n => exact ((not_climbs_append_cons_slash path _).1 h).1

end Path

/-! ### Following -/

/-- Segments that stay, each with its slash, come apart. -/
theorem segments_stays {ss : List (List Char)} (hss : ∀ s ∈ ss, s = [] ∨ s = ['.'])
    (e : List Char) : segments (ss.flatMap (· ++ ['/']) ++ e) = ss ++ segments e := by
  induction ss with
  | nil => rfl
  | cons s ss ih =>
    obtain ⟨hs, hss⟩ := List.forall_mem_cons.1 hss
    have hno : '/' ∉ s := by rcases hs with rfl | rfl <;> decide
    have happend : ((s :: ss).flatMap (· ++ ['/']) ++ e) =
        s ++ '/' :: (ss.flatMap (· ++ ['/']) ++ e) := by simp
    rw [happend, segments_append_slash _ hno, ih hss, List.cons_append]

namespace FileTree

variable {tree : FileTree} {current place : Place}

theorem find?_of_follow {path path' : String}
    (h : tree.follow current path = tree.follow current path') :
    tree.find? current path = tree.find? current path' := by
  simp only [find?, h]

theorem isFile_of_follow {path path' : String}
    (h : tree.follow current path = tree.follow current path') :
    tree.isFile current path = tree.isFile current path' := by
  simp only [isFile, find?_of_follow h]

theorem text?_of_follow {path path' : String}
    (h : tree.follow current path = tree.follow current path') :
    tree.text? current path = tree.text? current path' := by
  simp only [text?, find?_of_follow h]

theorem followAll_stays_append {ss ts : List String} (hss : ∀ s ∈ ss, s = "" ∨ s = ".")
    (hts : ts ≠ []) (place : Place) :
    tree.followAll place (ss ++ ts) = tree.followAll place ts := by
  induction ss with
  | nil => rfl
  | cons s ss ih =>
    obtain ⟨hs, hss⟩ := List.forall_mem_cons.1 hss
    rw [List.cons_append, followAll_stay_append hs (by simp [hts]), ih hss]

/-- **Segments that stay can be left out,** if others follow: the path leads to the same
place, and is not longer. -/
theorem follow_of_stays {a e : List Char} {ss : List (List Char)} (ha : a ≠ [])
    (hss : ∀ s ∈ ss, s = [] ∨ s = ['.'])
    (h : tree.follow current (String.ofList (a ++ '/' :: (ss.flatMap (· ++ ['/']) ++ e))) =
      .ok place) :
    tree.follow current (String.ofList (a ++ '/' :: e)) = .ok place := by
  have hsteps (tail : List Char) : stepsFrom current (String.ofList (a ++ '/' :: tail)) =
      ((stepsFrom current (String.ofList a)).1,
        (stepsFrom current (String.ofList a)).2 ++ (segments tail).map String.ofList) := by
    have hparts : Path.parts (String.ofList (a ++ '/' :: tail)) =
        Path.parts (String.ofList a) ++ (segments tail).map String.ofList := by
      simp [Path.parts, segments_append_cons_slash]
    have hne : Path.parts (String.ofList a) ≠ [] := by simp [Path.parts, segments_ne_nil]
    have habs : Path.isAbsolute (String.ofList (a ++ '/' :: tail)) =
        Path.isAbsolute (String.ofList a) := by
      obtain ⟨c, cs, rfl⟩ := List.exists_cons_of_ne_nil ha
      simp [Path.isAbsolute]
    obtain ⟨p, ps, hps⟩ := List.exists_cons_of_ne_nil hne
    unfold stepsFrom
    rw [habs, hparts]
    split <;> simp [hps]
  have hstays (place : Place) : tree.followAll place
        ((segments (ss.flatMap (· ++ ['/']) ++ e)).map String.ofList) =
      tree.followAll place ((segments e).map String.ofList) := by
    rw [segments_stays hss, List.map_append]
    refine followAll_stays_append ?_ (by simp [segments_ne_nil]) place
    intro s hs
    obtain ⟨t, ht, rfl⟩ := List.mem_map.1 hs
    rcases hss t ht with rfl | rfl
    · exact .inl rfl
    · exact .inr rfl
  rw [follow_eq_ok_iff] at h ⊢
  obtain ⟨-, hnul, hsize, hall⟩ := h
  refine ⟨by simp, ?_, ?_, ?_⟩
  · simp only [String.toList_ofList, List.mem_append, List.mem_cons] at hnul ⊢
    tauto
  · simp only [String.ofList_append, String.ofList_cons, String.utf8ByteSize_append] at hsize ⊢
    omega
  · rw [hsteps, followAll_append] at hall ⊢
    simpa only [hstays] using hall

end FileTree

namespace FileFetcher

variable {f : FileFetcher} {files : FileTree} {current : Place} {relativePath base path : String}
  {hint : Hint} {fetched : Fetched}

/-! ### Requests in a directory -/

/-- A name in a directory does not complete a scheme. -/
theorem not_scheme_enter {v name : List Char} (hv : v ≠ []) (hscheme : ¬ scheme <+: v)
    (hname : name.head? ≠ some '/') : ¬ scheme <+: Path.enter v ++ name := by
  have hlast : scheme.dropLast.getLast? = some '/' := by decide
  have hcut : ∀ k ≤ scheme.length, (scheme.take k).getLast? = some '/' →
      scheme.drop k = [] ∨ (scheme.drop k).head? = some '/' := by decide
  -- the scheme does not end with the slash that is put behind `v`
  have hself : ¬ scheme <+: Path.enter v := by
    by_cases hslash : v.getLast? = some '/'
    · rwa [Path.enter, if_pos (.inr hslash)]
    · rw [Path.enter_of_concat hv hslash, List.prefix_concat_iff]
      rintro (he | hp)
      · rw [he, List.dropLast_concat] at hlast
        exact hslash hlast
      · exact hscheme hp
  intro hp
  rcases List.prefix_or_prefix_of_prefix hp (List.prefix_append (Path.enter v) name) with h | h
  · exact hself h
  · have hend : (Path.enter v).getLast? = some '/' := by
      by_cases hslash : v.getLast? = some '/'
      · rwa [Path.enter, if_pos (.inr hslash)]
      · rw [Path.enter_of_concat hv hslash, List.getLast?_concat]
    obtain ⟨rest, hrest⟩ := h
    have htake : scheme.take (Path.enter v).length = Path.enter v := by simp [← hrest]
    have hdrop : scheme.drop (Path.enter v).length = rest := by simp [← hrest]
    rw [← hrest, List.prefix_append_right_inj] at hp
    rcases hcut _ (by simp [← hrest]) (htake ▸ hend) with hnil | hhead
    · rw [hdrop] at hnil
      exact hself (by simp [← hrest, hnil])
    · rw [hdrop] at hhead
      obtain ⟨more, rfl⟩ := hp
      exact hname (by rw [List.head?_append, hhead]; rfl)

/-- The scheme is taken from a request in a directory as it is from the directory. -/
theorem withoutScheme_enter {path name : List Char} (hne : path ≠ [])
    (hname : name.head? ≠ some '/') : withoutPrefix scheme (Path.enter path ++ name) =
      Path.enter (withoutPrefix scheme path) ++ name := by
  by_cases hscheme : scheme <+: path
  · obtain ⟨rest, rfl⟩ := hscheme
    have henter : Path.enter (scheme ++ rest) = scheme ++ Path.enter rest := by
      have hself : Path.enter scheme = scheme := by decide
      simpa [hself] using Path.enter_append scheme rest
    rw [henter, List.append_assoc, withoutPrefix_append, withoutPrefix_append]
  · rw [withoutPrefix_of_not hscheme, withoutPrefix_of_not (not_scheme_enter hne hscheme hname)]

/-- The slashes at the beginning are dropped from a path in a directory as they are from
the directory. -/
theorem dropSlashes_enter (path : List Char) {name : List Char} (hname : name.head? ≠ some '/') :
    (Path.enter path ++ name).dropWhile (· == '/') =
      Path.enter (path.dropWhile (· == '/')) ++ name := by
  have hstop {cs : List Char} (h : cs.head? ≠ some '/') : cs.dropWhile (· == '/') = cs := by
    cases cs with
    | nil => rfl
    | cons c cs => exact List.dropWhile_cons_of_neg (by simpa using h)
  obtain ⟨n, hn⟩ : ∃ n, path = List.replicate n '/' ++ path.dropWhile (· == '/') :=
    ⟨_, by rw [← takeWhile_slashes, List.takeWhile_append_dropWhile]⟩
  have hhead := List.head?_dropWhile_not (· == '/') path
  generalize path.dropWhile (· == '/') = rest at hn hhead
  subst hn
  cases rest with
  | nil =>
    have henter : Path.enter (List.replicate n '/') = List.replicate n '/' := by
      cases n with
      | zero => rfl
      | succ n => rw [Path.enter, if_pos (.inr (by simp [List.replicate_succ']))]
    simpa [henter] using hstop hname
  | cons c cs =>
    have hc : c ≠ '/' := by simpa using hhead
    have hfirst : (Path.enter (c :: cs) ++ name).head? ≠ some '/' := by
      have hbegins : (Path.enter (c :: cs) ++ name).head? = some c := by
        unfold Path.enter
        split <;> simp
      simpa [hbegins] using hc
    rw [Path.enter_append_of_ne_nil _ (List.cons_ne_nil c cs), List.append_assoc]
    simpa using hstop hfirst

theorem stem_enter (path : List Char) {name : List Char} (hname : name.head? ≠ some '/') :
    stem (Path.enter path ++ name) = Path.enter (stem path) ++ name := by
  have hmodules : Path.enter "node_modules/".toList = "node_modules/".toList := by decide
  by_cases hhead : path.head? = some '/'
  · have hbegins : (Path.enter path ++ name).head? = some '/' := by
      unfold Path.enter
      split <;> simp [hhead]
    rw [stem, if_pos hbegins, dropSlashes_enter path hname, stem, if_pos hhead]
  · have hbegins : (Path.enter path ++ name).head? ≠ some '/' := by
      cases path with
      | nil => simpa using hname
      | cons c cs =>
        unfold Path.enter
        split <;> simpa using hhead
    rw [stem, if_neg hbegins, stem, if_neg hhead, ← hmodules, Path.enter_append, hmodules,
      List.append_assoc]

/-- **A name in a request is a name in its path.** -/
theorem basePath?_enter {name : List Char} (hne : relativePath ≠ "")
    (hbase : f.basePath? relativePath = some base) (hname : name.head? ≠ some '/')
    (hclimbs : Path.climbs (String.ofList name) = false) :
    f.basePath? (String.ofList (Path.enter relativePath.toList ++ name)) =
      some (String.ofList (Path.enter base.toList ++ name)) := by
  have hlist : relativePath.toList ≠ [] := by simpa using hne
  obtain ⟨hstays, rfl⟩ := basePath?_eq_some_iff.1 hbase
  rw [basePath?_eq_some_iff, String.toList_ofList, withoutScheme_enter hlist hname]
  refine ⟨Path.not_climbs_enter hstays hclimbs, ?_⟩
  rw [← String.toList_inj, stem_enter _ hname]
  generalize hstem : stem (withoutPrefix scheme relativePath.toList) = path
  have hrelative : Path.isAbsolute (String.ofList path) = false := hstem ▸ isAbsolute_stem _
  have hrelative' : Path.isAbsolute (String.ofList (Path.enter path ++ name)) = false := by
    rw [← hstem, ← stem_enter _ hname]
    exact isAbsolute_stem _
  rw [Path.toList_join _ hrelative', Path.toList_join _ hrelative]
  simp only [String.toList_ofList, Path.enter_append, List.append_assoc]

/-! ### Slashes at the end -/

/-- A request that is more than slashes behind its scheme. -/
def Named (relativePath : String) : Prop :=
  ∃ c ∈ withoutPrefix scheme relativePath.toList, c ≠ '/'

theorem exists_withoutEnd (path : List Char) :
    ∃ n, path = withoutEnd path ++ List.replicate n '/' := by
  refine ⟨(path.reverse.takeWhile (· == '/')).length, ?_⟩
  calc path
      = (path.reverse.takeWhile (· == '/') ++ path.reverse.dropWhile (· == '/')).reverse := by
        rw [List.takeWhile_append_dropWhile, List.reverse_reverse]
    _ = withoutEnd path ++ (path.reverse.takeWhile (· == '/')).reverse := by
        rw [List.reverse_append, withoutEnd]
    _ = withoutEnd path ++ List.replicate (path.reverse.takeWhile (· == '/')).length '/' := by
        rw [takeWhile_slashes, List.reverse_replicate, List.length_replicate]

theorem getLast?_withoutEnd (path : List Char) : (withoutEnd path).getLast? ≠ some '/' := by
  intro hlast
  obtain ⟨front, hfront⟩ := List.getLast?_eq_some_iff.1 hlast
  exact withoutEnd_concat hfront rfl

/-- The scheme is not at the end of a request that is more than slashes. -/
theorem withoutScheme_withoutEnd {path : List Char} {n : Nat}
    (hn : path = withoutEnd path ++ List.replicate n '/')
    (hnamed : ∃ c ∈ withoutPrefix scheme path, c ≠ '/') :
    withoutPrefix scheme path =
      withoutPrefix scheme (withoutEnd path) ++ List.replicate n '/' := by
  by_cases hscheme : scheme <+: path
  · have hpart : scheme <+: withoutEnd path := by
      rcases List.prefix_or_prefix_of_prefix hscheme (withoutEnd_begins path) with h | ⟨rest, hrest⟩
      · exact h
      -- otherwise the scheme ends among the slashes, and only slashes are behind it
      · obtain ⟨c, hc, hslash⟩ := hnamed
        obtain ⟨tail, htail⟩ := hscheme
        have hwhole : withoutEnd path ++ (rest ++ tail) =
            withoutEnd path ++ List.replicate n '/' :=
          calc withoutEnd path ++ (rest ++ tail) = scheme ++ tail := by
                rw [← List.append_assoc, hrest]
            _ = path := htail
            _ = withoutEnd path ++ List.replicate n '/' := hn
        have hall : rest ++ tail = List.replicate n '/' := List.append_cancel_left hwhole
        rw [← htail, withoutPrefix_append] at hc
        have hc' : c ∈ List.replicate n '/' := hall ▸ List.mem_append_right rest hc
        exact absurd (List.eq_of_mem_replicate hc') hslash
    obtain ⟨rest, hrest⟩ := hpart
    calc withoutPrefix scheme path
        = withoutPrefix scheme (scheme ++ (rest ++ List.replicate n '/')) := by
          rw [← List.append_assoc, hrest, ← hn]
      _ = rest ++ List.replicate n '/' := withoutPrefix_append ..
      _ = withoutPrefix scheme (withoutEnd path) ++ List.replicate n '/' := by
          rw [← hrest, withoutPrefix_append]
  · rw [withoutPrefix_of_not hscheme,
      withoutPrefix_of_not fun h => hscheme (h.trans (withoutEnd_begins path))]
    exact hn

theorem stem_slashes {path : List Char} (n : Nat) (hnamed : ∃ c ∈ path, c ≠ '/') :
    stem (path ++ List.replicate n '/') = stem path ++ List.replicate n '/' := by
  obtain ⟨c, hc, hslash⟩ := hnamed
  have hhead : (path ++ List.replicate n '/').head? = path.head? :=
    List.head?_append_of_ne_nil _ (List.ne_nil_of_mem hc)
  have hrest : path.dropWhile (· == '/') ≠ [] := fun hnil => by
    simpa [hslash] using List.dropWhile_eq_nil_iff.1 hnil c hc
  unfold stem
  rw [hhead]
  split
  · rw [List.dropWhile_append, if_neg (by simpa using hrest)]
  · rw [List.append_assoc]

/-- What a path ends with, the path seen from the root ends with. -/
theorem getLast?_stem {path : List Char} (hnamed : ∃ c ∈ path, c ≠ '/') :
    stem path ≠ [] ∧ (stem path).getLast? = path.getLast? := by
  obtain ⟨c, hc, hslash⟩ := hnamed
  have hne : path ≠ [] := List.ne_nil_of_mem hc
  unfold stem
  split
  · have hrest : path.dropWhile (· == '/') ≠ [] := fun hnil => by
      simpa [hslash] using List.dropWhile_eq_nil_iff.1 hnil c hc
    obtain ⟨front, hfront⟩ := List.dropWhile_suffix (l := path) (· == '/')
    refine ⟨hrest, ?_⟩
    conv_rhs => rw [← hfront, List.getLast?_append_of_ne_nil _ hrest]
  · exact ⟨by simp, List.getLast?_append_of_ne_nil _ hne⟩

/-- **The path of a request without the slashes at its end** is that of the request without
them, and does not end with a slash either. -/
theorem basePath?_withoutEnd (hnamed : Named relativePath)
    (hbase : f.basePath? relativePath = some base) :
    withoutEnd relativePath.toList ≠ [] ∧
      ∃ a n, f.basePath? (String.ofList (withoutEnd relativePath.toList)) =
          some (String.ofList a) ∧
        a ≠ [] ∧ a.getLast? ≠ some '/' ∧ base.toList = a ++ List.replicate n '/' := by
  obtain ⟨n, hn⟩ := exists_withoutEnd relativePath.toList
  have hsplit := withoutScheme_withoutEnd hn hnamed
  obtain ⟨hstays, rfl⟩ := basePath?_eq_some_iff.1 hbase
  have hpart : withoutPrefix scheme (withoutEnd relativePath.toList) <:+
      withoutEnd relativePath.toList := by
    unfold withoutPrefix
    split
    · exact List.drop_suffix _ _
    · exact List.suffix_refl _
  have hshort : ∃ c ∈ withoutPrefix scheme (withoutEnd relativePath.toList), c ≠ '/' := by
    obtain ⟨c, hc, hslash⟩ := hnamed
    rw [hsplit] at hc
    exact ⟨c, (List.mem_append.1 hc).resolve_right fun hm =>
      hslash (List.eq_of_mem_replicate hm), hslash⟩
  have hne : withoutPrefix scheme (withoutEnd relativePath.toList) ≠ [] := by
    obtain ⟨c, hc, -⟩ := hshort
    exact List.ne_nil_of_mem hc
  obtain ⟨hstem, hend⟩ := getLast?_stem hshort
  refine ⟨fun hnil => hne (List.suffix_nil.1 (hnil ▸ hpart)),
    Path.enter f.root.toList ++ stem (withoutPrefix scheme (withoutEnd relativePath.toList)), n,
    ?_, by simp [hstem], ?_, ?_⟩
  · rw [basePath?_eq_some_iff, String.toList_ofList, ← String.toList_inj,
      Path.toList_join _ (isAbsolute_stem _), String.toList_ofList, String.toList_ofList]
    exact ⟨Path.not_climbs_of_slashes (hsplit ▸ hstays), rfl⟩
  · obtain ⟨front, hfront⟩ := hpart
    have hlast := getLast?_withoutEnd relativePath.toList
    rw [List.getLast?_append_of_ne_nil _ hstem, hend]
    rwa [← hfront, List.getLast?_append_of_ne_nil _ hne] at hlast
  · rw [Path.toList_join _ (isAbsolute_stem _), String.toList_ofList, hsplit,
      stem_slashes n hshort, List.append_assoc]

/-! ### Types entries by their names -/

/-- The suffix that the name of a types entry has lost. -/
def entrySuffix (entry : String) : String :=
  String.ofList ((withoutDots entry.toList).drop (entryName entry).length)

theorem eq_append_of_withoutSuffix {suffix text rest : List Char}
    (h : withoutSuffix suffix text = some rest) : text = rest ++ suffix := by
  unfold withoutSuffix at h
  split at h
  · next hsuffix =>
    obtain ⟨front, rfl⟩ := List.isSuffixOf_iff_suffix.1 hsuffix
    rw [← Option.some.inj h]
    simp
  · cases h

theorem exists_entrySuffix (entry : String) : ∃ suffix ∈ [".d.ts", ".ts", ""],
    withoutDots entry.toList = entryName entry ++ suffix.toList := by
  unfold entryName
  cases hdts : withoutSuffix ".d.ts".toList (withoutDots entry.toList) with
  | some rest => exact ⟨".d.ts", by simp, eq_append_of_withoutSuffix hdts⟩
  | none =>
    cases hts : withoutSuffix ".ts".toList (withoutDots entry.toList) with
    | some rest => exact ⟨".ts", by simp, eq_append_of_withoutSuffix hts⟩
    | none => exact ⟨"", by simp, by simp⟩

theorem entrySuffix_spec (entry : String) : entrySuffix entry ∈ [".d.ts", ".ts", ""] ∧
    withoutDots entry.toList = entryName entry ++ (entrySuffix entry).toList := by
  obtain ⟨suffix, hmem, happend⟩ := exists_entrySuffix entry
  have hsuffix : entrySuffix entry = suffix := by simp [entrySuffix, happend]
  rw [hsuffix]
  exact ⟨hmem, happend⟩

/-- The dots at the beginning of an entry are segments that stay. -/
theorem exists_dots (entry : List Char) :
    ∃ m, entry = (List.replicate m ['.']).flatMap (· ++ ['/']) ++ withoutDots entry := by
  fun_induction withoutDots entry with
  | case1 rest ih =>
    obtain ⟨m, hm⟩ := ih
    refine ⟨m + 1, ?_⟩
    rw [List.replicate_succ, List.flatMap_cons, List.append_assoc, ← hm]
    rfl
  | case2 path => exact ⟨0, rfl⟩

/-- Slashes at the end of a directory and the dots at the beginning of an entry are
segments that stay. -/
theorem exists_stays {a : List Char} (ha : a ≠ []) (hlast : a.getLast? ≠ some '/') (n : Nat)
    (entry : List Char) : ∃ ss : List (List Char), (∀ s ∈ ss, s = [] ∨ s = ['.']) ∧
      Path.enter (a ++ List.replicate n '/') ++ entry =
        a ++ '/' :: (ss.flatMap (· ++ ['/']) ++ withoutDots entry) := by
  obtain ⟨m, hm⟩ := exists_dots entry
  cases n with
  | zero =>
    refine ⟨List.replicate m ['.'], fun s hs => .inr (List.eq_of_mem_replicate hs), ?_⟩
    rw [← hm, List.replicate_zero, List.append_nil, Path.enter_of_concat ha hlast,
      List.append_assoc, List.singleton_append]
  | succ n =>
    have hslashes : (List.replicate n ([] : List Char)).flatMap (· ++ ['/']) =
        List.replicate n '/' := by
      induction n with
      | zero => rfl
      | succ n ih => rw [List.replicate_succ, List.flatMap_cons, ih]; rfl
    refine ⟨List.replicate n [] ++ List.replicate m ['.'], fun s hs => ?_, ?_⟩
    · exact (List.mem_append.1 hs).imp List.eq_of_mem_replicate List.eq_of_mem_replicate
    · rw [Path.enter_slashes, List.flatMap_append, hslashes, List.append_assoc _ _ (withoutDots _),
        ← hm, List.append_assoc, List.cons_append]

/-- An entry is the first file of its name, if none without its suffix and no declaration
is in its place. -/
theorem find?_entry {own entry : String}
    (hlanguage : entrySuffix entry = ".ts" → f.language = .typescript)
    (hplain : entrySuffix entry ≠ "" → files.isFile current own = false)
    (hdeclaration : entrySuffix entry = ".ts" → files.isFile current (own ++ ".d.ts") = false)
    (hfile : files.isFile current (own ++ entrySuffix entry) = true) :
    (f.spellings own).find? (files.isFile current) = some (own ++ entrySuffix entry) := by
  have hspellings : f.spellings own = [own, own ++ ".d.ts", own ++ ("." ++ f.language.suffix)] := by
    simp only [spellings, suffixes, List.map_cons, List.map_nil, String.append_assoc]
    rfl
  have hcases := (entrySuffix_spec entry).1
  rw [hspellings]
  simp only [List.mem_cons, List.not_mem_nil, or_false] at hcases
  rcases hcases with hsuffix | hsuffix | hsuffix
  · rw [hsuffix] at hfile hplain ⊢
    simp [hfile, hplain (by decide)]
  · have hts : "." ++ Language.typescript.suffix = ".ts" := by decide
    rw [hsuffix] at hfile hplain ⊢
    rw [hlanguage hsuffix, hts]
    simp [hfile, hplain (by decide), hdeclaration hsuffix]
  · rw [hsuffix] at hfile ⊢
    simp only [String.append_empty] at hfile ⊢
    simp [hfile]

/-! ### Identifiers -/

/-- Where a specifier points from the file that uses it. -/
def candidate (f : FileFetcher) (importer specifier : String) : Candidate :=
  Candidate.of importer specifier f.dependencyRoot

/-- The identifier under which what is served for a specifier is loaded. -/
def identifier (f : FileFetcher) (importer specifier : String) (hint : Hint) : String :=
  hint.apply (f.candidate importer specifier).identifier
    (f.candidate importer specifier).assumesEntryPoint

/-- What is asked for to fetch an identifier. -/
def ownPath (f : FileFetcher) (identifier : String) : String :=
  Candidate.withoutRoot f.dependencyRoot identifier

variable {importer specifier : String}

/-- **When an identifier leads back** to the file that is loaded under it. -/
inductive LeadsBack (f : FileFetcher) (files : FileTree) (current : Place)
    (importer specifier : String) : Hint → Prop
  /-- The candidate is right: the specifier does not name a whole package, for which an
  entry point was assumed. -/
  | spelled (hpart : specifier ≠ Specifier.packageRoot specifier) :
      LeadsBack f files current importer specifier .unchanged
  /-- An index file: something was asked for, no slash comes twice at the end of the
  identifier, the root of packages is not put together by the index suffix, and no file
  without suffix takes the name. -/
  | index {dir : String}
      (hne : (f.candidate importer specifier).relativePath ≠ "")
      (hbase : f.basePath? (f.candidate importer specifier).relativePath = some dir)
      (hslash : specifier = Specifier.packageRoot specifier →
        (Candidate.target importer specifier f.dependencyRoot).toList.getLast? ≠ some '/')
      (hroot : f.dependencyRoot.toList <+: (f.identifier importer specifier .directory).toList →
        f.dependencyRoot.toList <+:
          (Candidate.target importer specifier f.dependencyRoot).toList)
      (hplain : files.isFile current (Path.join dir "index") = false) :
      LeadsBack f files current importer specifier .directory
  /-- A types entry: more than slashes was asked for, the entry is relative and its name
  does not climb, the root of packages is not put together by the name, and the entry has
  a suffix of the language and is the first file of its name. -/
  | entry {dir entry : String}
      (hnamed : Named (f.candidate importer specifier).relativePath)
      (hbase : f.basePath? (f.candidate importer specifier).relativePath = some dir)
      (hentry : entry? files current dir = .ok (some entry))
      (hrelative : (withoutDots entry.toList).head? ≠ some '/')
      (hclimbs : Path.climbs (String.ofList (entryName entry)) = false)
      (hroot : known (withoutEnd (f.candidate importer specifier).relativePath.toList) = true →
        f.dependencyRoot.toList <+:
          (f.identifierFor (f.candidate importer specifier).relativePath entry).toList →
        f.dependencyRoot = "")
      (hlanguage : entrySuffix entry = ".ts" → f.language = .typescript)
      (hfirst : ∀ own, f.basePath? (f.ownPath
          (f.identifierFor (f.candidate importer specifier).relativePath entry)) = some own →
        (entrySuffix entry ≠ "" → files.isFile current own = false) ∧
        (entrySuffix entry = ".ts" → files.isFile current (own ++ ".d.ts") = false)) :
      LeadsBack f files current importer specifier
        (.renamed (f.identifierFor (f.candidate importer specifier).relativePath entry))

theorem toList_ownPath (f : FileFetcher) (identifier : String) :
    (f.ownPath identifier).toList = withoutPrefix f.dependencyRoot.toList identifier.toList := by
  simp [ownPath, Candidate.withoutRoot]

theorem relativePath_eq (f : FileFetcher) (importer specifier : String) :
    (f.candidate importer specifier).relativePath =
      f.ownPath (Candidate.target importer specifier f.dependencyRoot) := rfl

/-- The identifier of a directory's index file is `index` in the directory. -/
theorem identifier_directory
    (hne : (Candidate.target importer specifier f.dependencyRoot).toList ≠ [])
    (hslash : specifier = Specifier.packageRoot specifier →
      (Candidate.target importer specifier f.dependencyRoot).toList.getLast? ≠ some '/') :
    (f.identifier importer specifier .directory).toList =
      Path.enter (Candidate.target importer specifier f.dependencyRoot).toList ++
        "index".toList := by
  have hsuffix : indexSuffix.toList = '/' :: "index".toList := by decide
  unfold identifier candidate Candidate.of Hint.apply
  generalize Candidate.target importer specifier f.dependencyRoot = target at *
  simp only [beq_iff_eq]
  by_cases hwhole : specifier = Specifier.packageRoot specifier
  · simp only [if_pos hwhole]
    rw [String.toList_append, hsuffix, Path.enter_of_concat hne (hslash hwhole), List.append_assoc,
      List.singleton_append]
  · simp only [if_neg hwhole]
    by_cases hlast : target.toList.getLast? = some '/'
    · rw [if_pos hlast, Path.enter, if_pos (.inr hlast), String.toList_append]
    · rw [if_neg hlast, Path.enter_of_concat hne hlast, String.toList_append, hsuffix,
        List.append_assoc, List.singleton_append]

/-- The own path of a directory's index file is `index` in what was asked for. -/
theorem ownPath_directory (hne : (f.candidate importer specifier).relativePath ≠ "")
    (hslash : specifier = Specifier.packageRoot specifier →
      (Candidate.target importer specifier f.dependencyRoot).toList.getLast? ≠ some '/')
    (hroot : f.dependencyRoot.toList <+: (f.identifier importer specifier .directory).toList →
      f.dependencyRoot.toList <+: (Candidate.target importer specifier f.dependencyRoot).toList) :
    f.ownPath (f.identifier importer specifier .directory) = String.ofList
      (Path.enter (f.candidate importer specifier).relativePath.toList ++ "index".toList) := by
  rw [relativePath_eq] at hne ⊢
  rw [Ne, ← String.toList_eq_nil_iff, toList_ownPath] at hne
  have htarget : (Candidate.target importer specifier f.dependencyRoot).toList ≠ [] := fun hnil =>
    hne (by simp [hnil, withoutPrefix])
  rw [identifier_directory htarget hslash] at hroot
  rw [← String.toList_inj, String.toList_ofList, toList_ownPath, toList_ownPath,
    identifier_directory htarget hslash]
  generalize (Candidate.target importer specifier f.dependencyRoot).toList = target at *
  by_cases hunder : f.dependencyRoot.toList <+: target
  · obtain ⟨rest, rfl⟩ := hunder
    rw [withoutPrefix_append] at hne ⊢
    rw [Path.enter_append_of_ne_nil _ hne, List.append_assoc, withoutPrefix_append]
  · rw [withoutPrefix_of_not hunder, withoutPrefix_of_not fun h => hunder (hroot h)]

/-- The own path of a types entry is its name in what was asked for. -/
theorem ownPath_identifierFor {entry : String} (hne : withoutEnd relativePath.toList ≠ [])
    (hroot : known (withoutEnd relativePath.toList) = true →
      f.dependencyRoot.toList <+: (f.identifierFor relativePath entry).toList →
      f.dependencyRoot = "") :
    f.ownPath (f.identifierFor relativePath entry) =
      String.ofList (Path.enter (withoutEnd relativePath.toList) ++ entryName entry) := by
  have henter : Path.enter (withoutEnd relativePath.toList) ++ entryName entry =
      withoutEnd relativePath.toList ++ '/' :: entryName entry := by
    rw [Path.enter_of_concat hne (getLast?_withoutEnd _), List.append_assoc, List.singleton_append]
  rw [← String.toList_inj, String.toList_ofList, henter, toList_ownPath]
  rw [identifierFor_eq] at hroot ⊢
  by_cases hknown : known (withoutEnd relativePath.toList) = true
  · simp only [hknown, if_true, List.nil_append, forall_const] at hroot ⊢
    by_cases hunder : f.dependencyRoot.toList <+:
        withoutEnd relativePath.toList ++ '/' :: entryName entry
    · simp [hroot hunder, withoutPrefix]
    · exact withoutPrefix_of_not hunder
  · simp only [hknown, if_false, Bool.false_eq_true]
    rw [List.append_assoc, withoutPrefix_append]

/-! ### Files that are found again -/

theorem spellings_index (f : FileFetcher) (base : String) :
    f.spellings (Path.join base "index") = Path.join base "index" :: f.indexFiles base := by
  have hsuffix (suffix : String) : Path.join base "index" ++ "." ++ suffix =
      Path.join base ("index." ++ suffix) := by
    have hindex : "index" ++ ("." ++ suffix) = "index." ++ suffix := by
      rw [← String.append_assoc]
      rfl
    have hrelative : Path.isAbsolute ("index" ++ ("." ++ suffix)) = false := by
      simp [Path.isAbsolute]
    rw [String.append_assoc, Path.join_append base _ (by decide) hrelative, hindex]
  simp only [spellings, indexFiles, hsuffix]

/-- An index file is found again as it is. -/
theorem finds_index (hne : relativePath ≠ "") (hbase : f.basePath? relativePath = some base)
    (hpath : (f.indexFiles base).find? (files.isFile current) = some path)
    (hplain : files.isFile current (Path.join base "index") = false) :
    f.Finds files current
      (String.ofList (Path.enter relativePath.toList ++ "index".toList)) path .unchanged := by
  have hjoin : String.ofList (Path.enter base.toList ++ "index".toList) =
      Path.join base "index" := by
    rw [← String.toList_inj, Path.toList_join _ (by decide), String.toList_ofList]
  have hown : f.basePath? (String.ofList (Path.enter relativePath.toList ++ "index".toList)) =
      some (Path.join base "index") :=
    hjoin ▸ basePath?_enter hne hbase (by decide) (by decide)
  refine .spelled hown ?_
  rw [spellings_index, List.find?_cons, hplain]
  exact hpath

/-- A types entry leads to the same place under its name with its suffix. -/
theorem follow_own {entry : String} {place : Place} {a : List Char} {n : Nat} (ha : a ≠ [])
    (hlast : a.getLast? ≠ some '/') (hbase : base.toList = a ++ List.replicate n '/')
    (hentry : Path.isAbsolute entry = false)
    (h : files.follow current (Path.join base entry) = .ok place) :
    files.follow current (String.ofList (Path.enter a ++ entryName entry) ++ entrySuffix entry) =
      .ok place := by
  obtain ⟨ss, hss, hpath⟩ := exists_stays ha hlast n entry.toList
  have hjoin : Path.join base entry = String.ofList
      (a ++ '/' :: (ss.flatMap (· ++ ['/']) ++ withoutDots entry.toList)) := by
    rw [← String.toList_inj, String.toList_ofList, ← hpath, Path.toList_join _ hentry, hbase]
  have hsuffixed : String.ofList (Path.enter a ++ entryName entry) ++ entrySuffix entry =
      String.ofList (a ++ '/' :: withoutDots entry.toList) := by
    rw [← String.toList_inj, String.toList_append, (entrySuffix_spec entry).2,
      Path.enter_of_concat ha hlast]
    simp
  rw [hjoin] at h
  rw [hsuffixed]
  exact FileTree.follow_of_stays ha hss h

/-- An entry that is relative without its dots is relative. -/
theorem isAbsolute_of_withoutDots {entry : String}
    (h : (withoutDots entry.toList).head? ≠ some '/') : Path.isAbsolute entry = false := by
  rw [Path.isAbsolute_eq_false_iff]
  obtain ⟨m, hm⟩ := exists_dots entry.toList
  cases m with
  | zero =>
    rw [List.replicate_zero, List.flatMap_nil, List.nil_append] at hm
    rwa [hm]
  | succ m =>
    rw [hm, List.replicate_succ]
    simp

/-- A types entry is found again by its name, at the same place. -/
theorem finds_entry {entry : String} (hnamed : Named relativePath)
    (hbase : f.basePath? relativePath = some base)
    (hfile : files.isFile current (Path.join base entry) = true)
    (hrelative : (withoutDots entry.toList).head? ≠ some '/')
    (hclimbs : Path.climbs (String.ofList (entryName entry)) = false)
    (hlanguage : entrySuffix entry = ".ts" → f.language = .typescript)
    (hfirst : ∀ own, f.basePath? (String.ofList
        (Path.enter (withoutEnd relativePath.toList) ++ entryName entry)) = some own →
      (entrySuffix entry ≠ "" → files.isFile current own = false) ∧
      (entrySuffix entry = ".ts" → files.isFile current (own ++ ".d.ts") = false)) :
    ∃ path place, files.follow current (Path.join base entry) = .ok place ∧
      files.follow current path = .ok place ∧
      f.Finds files current (String.ofList
        (Path.enter (withoutEnd relativePath.toList) ++ entryName entry)) path .unchanged := by
  obtain ⟨hne, a, n, hshort, ha, hlast, hslashes⟩ := basePath?_withoutEnd hnamed hbase
  have hname : (entryName entry).head? ≠ some '/' := by
    rw [(entrySuffix_spec entry).2] at hrelative
    cases hcs : entryName entry with
    | nil => simp
    | cons c cs => simpa [hcs] using hrelative
  have hown : f.basePath? (String.ofList
      (Path.enter (withoutEnd relativePath.toList) ++ entryName entry)) =
        some (String.ofList (Path.enter a ++ entryName entry)) := by
    simpa using basePath?_enter (by simpa using hne) hshort hname hclimbs
  obtain ⟨place, hplace⟩ := FileTree.follow_of_isFile hfile
  have hagain := follow_own ha hlast hslashes (isAbsolute_of_withoutDots hrelative) hplace
  obtain ⟨hplain, hdeclaration⟩ := hfirst _ hown
  have hfound : files.isFile current
      (String.ofList (Path.enter a ++ entryName entry) ++ entrySuffix entry) = true :=
    (FileTree.isFile_of_follow (hagain.trans hplace.symm)).trans hfile
  exact ⟨_, place, hplace, hagain,
    .spelled hown (find?_entry hlanguage hplain hdeclaration hfound)⟩

/-- **A file that leads back is found again:** where one of these holds, what is served for
the own path of the identifier under which a file is loaded is that file, and the
identifier is right as it is. -/
theorem found_again
    (h : f.fetch files current (f.candidate importer specifier).relativePath = .ok fetched)
    (hback : f.LeadsBack files current importer specifier fetched.hint) :
    ∃ path path' place,
      f.Finds files current (f.candidate importer specifier).relativePath path fetched.hint ∧
      files.follow current path = .ok place ∧
      f.Finds files current (f.ownPath (f.identifier importer specifier fetched.hint)) path'
        .unchanged ∧
      files.follow current path' = .ok place ∧
      f.fetch files current (f.ownPath (f.identifier importer specifier fetched.hint)) =
        .ok ⟨fetched.text, .unchanged⟩ := by
  obtain ⟨path, hfinds, hread⟩ := fetch_eq_ok_iff.1 h
  -- one place, one text: only the place has to be shown
  suffices ∃ path' place, files.follow current path = .ok place ∧
      files.follow current path' = .ok place ∧
      f.Finds files current (f.ownPath (f.identifier importer specifier fetched.hint)) path'
        .unchanged by
    obtain ⟨path', place, hplace, hagain, hfinds'⟩ := this
    have hread' : read files current path' = .ok fetched.text :=
      read_eq_ok_iff.2 ((FileTree.text?_of_follow (hagain.trans hplace.symm)).trans
        (read_eq_ok_iff.1 hread))
    exact ⟨path, path', place, hfinds, hplace, hfinds', hagain,
      fetch_eq_ok_iff.2 ⟨path', hfinds', hread'⟩⟩
  generalize fetched.hint = hint at hfinds hback ⊢
  cases hback with
  | spelled hpart =>
    have hsame : f.ownPath (f.identifier importer specifier .unchanged) =
        (f.candidate importer specifier).relativePath := by
      simp [identifier, candidate, Candidate.of, Hint.apply, hpart, ownPath]
    rw [hsame]
    cases hfinds with
    | spelled hbase hpath =>
      obtain ⟨place, hplace⟩ := FileTree.follow_of_isFile (List.find?_some hpath)
      exact ⟨path, place, hplace, hplace, .spelled hbase hpath⟩
  | index hne hbase hslash hroot hplain =>
    rw [ownPath_directory hne hslash hroot]
    cases hfinds with
    | index hbase' hnone hdir hentry hmissing hpath =>
      obtain rfl := Option.some.inj (hbase.symm.trans hbase')
      obtain ⟨place, hplace⟩ := FileTree.follow_of_isFile (List.find?_some hpath)
      exact ⟨path, place, hplace, hplace, finds_index hne hbase hpath hplain⟩
  | @entry dir entry hnamed hbase hentry hrelative hclimbs hroot hlanguage hfirst =>
    have hown := ownPath_identifierFor (basePath?_withoutEnd hnamed hbase).1 hroot
    obtain ⟨dir', entry', hbase', -, hentry', hfile, rfl, -⟩ := hfinds.entry_of_renamed
    obtain rfl := Option.some.inj (hbase.symm.trans hbase')
    obtain rfl := Option.some.inj (Except.ok.inj (hentry.symm.trans hentry'))
    rw [hown] at hfirst
    obtain ⟨path', place, hplace, hagain, hfinds'⟩ :=
      finds_entry hnamed hbase hfile hrelative hclimbs hlanguage hfirst
    refine ⟨path', place, hplace, hagain, ?_⟩
    have hidentifier : f.identifier importer specifier
        (.renamed (f.identifierFor (f.candidate importer specifier).relativePath entry)) =
          f.identifierFor (f.candidate importer specifier).relativePath entry := rfl
    rw [hidentifier, hown]
    exact hfinds'

/-- The types entry of a package is found again by its name. -/
theorem found_again_project :
    fetcherOfProject.fetch (treeOfProject "./lib.d.ts") [] "lib" =
        .ok ⟨"export const a: 1;", .renamed "file:///node_modules/lib/lib"⟩ ∧
      ∃ path path' place,
        fetcherOfProject.Finds (treeOfProject "./lib.d.ts") [] "lib" path
          (.renamed "file:///node_modules/lib/lib") ∧
        (treeOfProject "./lib.d.ts").follow [] path = .ok place ∧
        fetcherOfProject.Finds (treeOfProject "./lib.d.ts") [] "lib/lib" path' .unchanged ∧
        (treeOfProject "./lib.d.ts").follow [] path' = .ok place ∧
        fetcherOfProject.fetch (treeOfProject "./lib.d.ts") [] "lib/lib" =
          .ok ⟨"export const a: 1;", .unchanged⟩ := by
  have hrequest : (fetcherOfProject.candidate "/a" "lib").relativePath = "lib" := by decide +kernel
  have hidentifier : fetcherOfProject.identifierFor "lib" "./lib.d.ts" =
      "file:///node_modules/lib/lib" := by decide +kernel
  have hown : fetcherOfProject.ownPath "file:///node_modules/lib/lib" = "lib/lib" := by
    decide +kernel
  have hfetch : fetcherOfProject.fetch (treeOfProject "./lib.d.ts") []
      (fetcherOfProject.candidate "/a" "lib").relativePath =
        .ok ⟨"export const a: 1;", .renamed "file:///node_modules/lib/lib"⟩ :=
    hrequest.symm ▸ fetch_project
  have hbase' : fetcherOfProject.basePath? "lib/lib" = some "/project/node_modules/lib/lib" := by
    decide +kernel
  have hhint : Hint.renamed "file:///node_modules/lib/lib" = .renamed
      (fetcherOfProject.identifierFor (fetcherOfProject.candidate "/a" "lib").relativePath
        "./lib.d.ts") := by rw [hrequest, hidentifier]
  have hback : fetcherOfProject.LeadsBack (treeOfProject "./lib.d.ts") [] "/a" "lib"
      (.renamed "file:///node_modules/lib/lib") := by
    rw [hhint]
    refine .entry (hrequest ▸ ⟨'l', by decide, by decide⟩) (hrequest ▸ basePath?_project)
      (by decide +kernel) (by decide) (by decide) (fun hknown => ?_) (fun _ => rfl) fun own h => ?_
    · exact absurd hknown (by decide +kernel)
    · rw [hrequest, hidentifier, hown, hbase'] at h
      obtain rfl := Option.some.inj h
      exact ⟨fun _ => by decide +kernel, fun hsuffix => absurd hsuffix (by decide +kernel)⟩
  obtain ⟨path, path', place, hfinds, hplace, hfinds', hagain, hfetch'⟩ := found_again hfetch hback
  have hloaded : fetcherOfProject.ownPath (fetcherOfProject.identifier "/a" "lib"
      (.renamed "file:///node_modules/lib/lib")) = "lib/lib" := hown
  rw [hloaded] at hfinds' hfetch'
  rw [hrequest] at hfinds hfetch
  exact ⟨hfetch, path, path', place, hfinds, hplace, hfinds', hagain, hfetch'⟩

/-- A project with a package whose manifest names a source, and one that is a single
file. -/
def treeOfSources : FileTree :=
  .directory [("project", .directory [("node_modules", .directory
    [("lib", .directory
      [("package.json", .file (some (manifestNaming "lib.ts"))),
        ("lib.ts", .file (some "export const a = 1;"))]),
      ("single.d.ts", .file (some "export const b: 1;"))])])]

/-- Where scripts are asked for, the types entry `lib.ts` is loaded under an identifier for
which nothing is served; so is, whatever is asked for, the file of a package that has no
directory. -/
theorem lost_in_javascript :
    let f : FileFetcher := { fetcherOfProject with language := .javascript }
    (f.fetch treeOfSources [] (f.candidate "/a" "lib").relativePath =
        .ok ⟨"export const a = 1;", .renamed "file:///node_modules/lib/lib"⟩ ∧
      f.fetch treeOfSources [] (f.ownPath (f.identifier "/a" "lib"
        (.renamed "file:///node_modules/lib/lib"))) = .error (.notFound "lib/lib")) ∧
    f.fetch treeOfSources [] (f.candidate "/a" "single").relativePath =
        .ok ⟨"export const b: 1;", .unchanged⟩ ∧
      f.fetch treeOfSources [] (f.ownPath (f.identifier "/a" "single" .unchanged)) =
        .error (.notFound "single/index") := by
  refine ⟨⟨?_, ?_⟩, ?_, ?_⟩ <;> decide +kernel

end FileFetcher

end ModuleGraph
