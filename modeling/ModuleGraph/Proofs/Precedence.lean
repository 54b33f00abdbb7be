/-
# Which file answers a request

Several files of a tree may answer a request, and some come before others: what the request
says, then with a declaration suffix, then with the suffix of the language; and if it says a
directory, the types entry of the manifest there, then the index files. These are its
alternatives, each with its rank (`FileFetcher.Alternative`).

The alternative of the least rank that is a file is served (`FileFetcher.First`). If all files
of the tree are texts, nothing else happens: a request fails exactly if it climbs or if none of
its alternatives is a file, and the failure names the request (`FileFetcher.fetch_first`).

What is looked at before an alternative is ruled out rank by rank (`FileFetcher.Passed`), in the
order in which a request is answered.

Key definitions: `FileTree.isText`, `FileFetcher.Names`, `FileFetcher.Declares`,
`FileFetcher.HasEntry`, `FileFetcher.Alternative`, `FileFetcher.Passed`, `FileFetcher.First`.
Key theorems: `FileTree.exists_text`, `FileFetcher.entry?_eq_some_iff`,
`FileFetcher.First.unique`, `FileFetcher.Finds.first`, `FileFetcher.failed_of_fetch`,
`FileFetcher.fetch_first`.
-/
import ModuleGraph.Proofs.OwnPath

namespace ModuleGraph

open Text

/-! ### Trees of texts -/

namespace FileTree

mutual
/-- Every file in the tree is a text. -/
def isText : FileTree → Bool
  | file text => text.isSome
  | directory entries => areText entries

def areText : List (String × FileTree) → Bool
  | [] => true
  | (_, t) :: rest => isText t && areText rest
end

variable {tree t : FileTree} {current place : Place} {path name : String}

theorem isText_of_get? : ∀ {entries : List (String × FileTree)}, areText entries = true →
    Table.get? entries name = some t → t.isText = true
  | [], _, h => by simp at h
  | (key, u) :: rest, htext, h => by
    simp only [areText, Bool.and_eq_true] at htext
    simp only [Table.get?] at h
    split at h
    · exact Option.some.inj h ▸ htext.1
    · exact isText_of_get? htext.2 h

theorem isText_of_at? (htree : tree.isText = true) (h : tree.at? place = some t) :
    t.isText = true := by
  induction place generalizing tree with
  | nil => exact Option.some.inj h ▸ htree
  | cons name place ih =>
    obtain ⟨u, hu, ht⟩ := Option.bind_eq_some_iff.1 h
    cases tree with
    | file text => simp [child?] at hu
    | directory entries => exact ih (isText_of_get? (by simpa [isText] using htree) hu) ht

/-- In a tree of texts a file can be read. -/
theorem exists_text (htree : tree.isText = true) (h : tree.isFile current path = true) :
    ∃ text, tree.text? current path = some text := by
  unfold isFile at h
  split at h
  · next text hfound =>
    obtain ⟨place, -, hat⟩ := follow_of_find? hfound
    have htext := isText_of_at? htree hat
    obtain ⟨text, rfl⟩ := Option.isSome_iff_exists.1 htext
    exact ⟨text, by simp [text?, hfound]⟩
  · cases h

theorem isFile_of_text? {text : String} (h : tree.text? current path = some text) :
    tree.isFile current path = true := by
  unfold text? at h
  split at h
  · next hfound => simp [isFile, hfound]
  · cases h

end FileTree

namespace FileFetcher

/-! ### Types entries -/

/-- The types entry that a manifest names: its `types`, or else its `typings`. Only a text
counts. -/
inductive Names (manifest : Json) : String → Prop
  | types {entry : String} (h : manifest.get? "types" = some (.string entry)) :
      Names manifest entry
  | typings {entry : String} (hnot : ∀ text, manifest.get? "types" ≠ some (.string text))
      (h : manifest.get? "typings" = some (.string entry)) : Names manifest entry

/-- A text is a manifest that names a types entry. -/
def Declares (text entry : String) : Prop :=
  ∃ manifest, Json.parse? manifestDepth text = some manifest ∧ Names manifest entry

/-- The manifest in a directory names a types entry that does not climb. -/
def HasEntry (files : FileTree) (current : Place) (base entry : String) : Prop :=
  ∃ text, files.text? current (Path.join base "package.json") = some text ∧
    Declares text entry ∧ Path.climbs entry = false

theorem asString?_eq_some_iff {value : Json} {text : String} :
    value.asString? = some text ↔ value = .string text := by
  cases value <;> simp [Json.asString?]

theorem typesOf?_eq_some_iff {manifest : Json} {entry : String} :
    typesOf? manifest = some entry ↔ Names manifest entry := by
  have htext (name text : String) : (manifest.get? name).bind Json.asString? = some text ↔
      manifest.get? name = some (.string text) := by
    simp [Option.bind_eq_some_iff, asString?_eq_some_iff]
  unfold typesOf?
  cases htypes : (manifest.get? "types").bind Json.asString? with
  | some text =>
    have hmember := (htext "types" text).1 htypes
    constructor
    · intro h
      obtain rfl := Option.some.inj h
      exact .types hmember
    · rintro (h | ⟨hnot, -⟩)
      · rw [(htext "types" entry).2 h] at htypes
        exact htypes.symm
      · exact absurd hmember (hnot text)
  | none =>
    have hnot (text : String) : manifest.get? "types" ≠ some (.string text) := fun h => by
      rw [(htext "types" text).2 h] at htypes
      cases htypes
    constructor
    · intro h
      exact .typings hnot ((htext "typings" entry).1 h)
    · rintro (h | ⟨-, h⟩)
      · exact absurd h (hnot entry)
      · exact (htext "typings" entry).2 h

/-- What a text declares is one entry. -/
theorem entryOfText?_eq_some_iff {text entry : String} :
    entryOfText? text = some entry ↔ Declares text entry ∧ Path.climbs entry = false := by
  simp [entryOfText?, Declares, Option.filter_eq_some_iff, Option.bind_eq_some_iff,
    typesOf?_eq_some_iff]

variable {f : FileFetcher} {files : FileTree} {current : Place} {relativePath base path : String}
  {hint : Hint} {fetched : Fetched}

theorem entry?_of_not_isFile
    (h : files.isFile current (Path.join base "package.json") = false) :
    entry? files current base = .ok none := by
  simp [h, entry?]

theorem entry?_of_text? {text : String}
    (h : files.text? current (Path.join base "package.json") = some text) :
    entry? files current base = .ok (entryOfText? text) := by
  simp [FileTree.isFile_of_text? h, entry?, read, h, bind, Except.bind, pure, Except.pure]

/-- A manifest that is not a text is a failure, not a manifest without an entry. -/
theorem entry?_of_unreadable
    (hfile : files.isFile current (Path.join base "package.json") = true)
    (h : files.text? current (Path.join base "package.json") = none) :
    entry? files current base = .error (unreadable (Path.join base "package.json")) := by
  simp [hfile, entry?, read, h, bind, Except.bind]

theorem entry?_eq_some_iff {entry : String} :
    entry? files current base = .ok (some entry) ↔ HasEntry files current base entry := by
  unfold HasEntry
  cases htext : files.text? current (Path.join base "package.json") with
  | some text => simp [entryOfText?_eq_some_iff, entry?_of_text? htext]
  | none =>
    cases hfile : files.isFile current (Path.join base "package.json") with
    | true =>
      have hentry := entry?_of_unreadable hfile htext
      simp [hentry]
    | false =>
      have hentry := entry?_of_not_isFile hfile
      simp [hentry]

/-- In a tree of texts a directory has an entry or none. -/
theorem exists_entry_of_isText (htree : files.isText = true) (current : Place) (base : String) :
    ∃ found, entry? files current base = .ok found := by
  cases hfile : files.isFile current (Path.join base "package.json") with
  | true =>
    obtain ⟨text, htext⟩ := FileTree.exists_text htree hfile
    exact ⟨_, entry?_of_text? htext⟩
  | false => exact ⟨none, entry?_of_not_isFile hfile⟩

/-! ### Alternatives -/

/-- The path in the file tree that a request is about. -/
def pathOf (f : FileFetcher) (relativePath : String) : String :=
  Path.join f.root (String.ofList (stem (withoutPrefix scheme relativePath.toList)))

/-- The scheme of a request makes no difference to whether it climbs. -/
theorem climbs_withoutScheme (path : List Char) :
    Path.climbs (String.ofList (withoutPrefix scheme path)) = Path.climbs (String.ofList path) := by
  by_cases hscheme : scheme <+: path
  · obtain ⟨rest, rfl⟩ := hscheme
    have hsplit : scheme ++ rest = "file:/".toList ++ '/' :: rest := rfl
    have hfront : Path.climbs (String.ofList "file:/".toList) = false := by decide
    rw [withoutPrefix_append, hsplit, Bool.eq_iff_iff, ← not_iff_not, Bool.not_eq_true,
      Bool.not_eq_true, Path.not_climbs_append_cons_slash, and_iff_right hfront]
  · rw [withoutPrefix_of_not hscheme]

/-- **A request is about its path unless it climbs.** -/
theorem basePath?_eq (f : FileFetcher) (relativePath : String) : f.basePath? relativePath =
    if Path.climbs relativePath then none else some (f.pathOf relativePath) := by
  have hclimbs := climbs_withoutScheme relativePath.toList
  rw [String.ofList_toList] at hclimbs
  split
  · next h => simp [basePath?, hclimbs, h]
  · next h => exact basePath?_eq_some_iff.2 ⟨hclimbs.trans (by simpa using h), rfl⟩

/-- What may answer a request, with its rank and what is reported of it. -/
inductive Alternative (f : FileFetcher) (files : FileTree) (current : Place)
    (relativePath : String) : Nat → String → Hint → Prop
  /-- What the request says. -/
  | exact : Alternative f files current relativePath 0 (f.pathOf relativePath) .unchanged
  | declaration :
      Alternative f files current relativePath 1 (f.pathOf relativePath ++ ".d.ts") .unchanged
  | source : Alternative f files current relativePath 2
      (f.pathOf relativePath ++ "." ++ f.language.suffix) .unchanged
  /-- The types entry of a directory's manifest. It is known below the path of the request,
  and that below the root of packages if it is neither absolute nor has a scheme. -/
  | entry {entry identifier : String}
      (hdir : files.isDirectory current (f.pathOf relativePath) = true)
      (hentry : HasEntry files current (f.pathOf relativePath) entry)
      (hidentifier : identifier.toList =
        (if known (withoutEnd relativePath.toList) then [] else f.dependencyRoot.toList) ++
          withoutEnd relativePath.toList ++ '/' :: entryName entry) :
      Alternative f files current relativePath 3 (Path.join (f.pathOf relativePath) entry)
        (.renamed identifier)
  | declarationIndex (hdir : files.isDirectory current (f.pathOf relativePath) = true) :
      Alternative f files current relativePath 4
        (Path.join (f.pathOf relativePath) "index.d.ts") .directory
  | sourceIndex (hdir : files.isDirectory current (f.pathOf relativePath) = true) :
      Alternative f files current relativePath 5
        (Path.join (f.pathOf relativePath) ("index." ++ f.language.suffix)) .directory

/-- No alternative of a lower rank is a file. -/
def Passed (f : FileFetcher) (files : FileTree) (current : Place) (relativePath : String)
    (rank : Nat) : Prop :=
  ∀ rank' path hint, rank' < rank → f.Alternative files current relativePath rank' path hint →
    files.isFile current path = false

/-- Of the alternatives that are files, the one of the least rank. -/
def First (f : FileFetcher) (files : FileTree) (current : Place) (relativePath path : String)
    (hint : Hint) : Prop :=
  ∃ rank, f.Alternative files current relativePath rank path hint ∧
    files.isFile current path = true ∧ f.Passed files current relativePath rank

section

variable {rank : Nat}

theorem HasEntry.unique {entry entry' : String} (h : HasEntry files current base entry)
    (h' : HasEntry files current base entry') : entry = entry' := by
  have hfound := entry?_eq_some_iff.2 h
  have hfound' := entry?_eq_some_iff.2 h'
  exact Option.some.inj (Except.ok.inj (hfound.symm.trans hfound'))

/-- There is one alternative of a rank. -/
theorem Alternative.unique {path' : String} {hint' : Hint}
    (h : f.Alternative files current relativePath rank path hint)
    (h' : f.Alternative files current relativePath rank path' hint') :
    path = path' ∧ hint = hint' := by
  cases h <;> cases h'
  case entry.entry entry identifier hdir hentry hid entry' identifier' hdir' hentry' hid' =>
    obtain rfl := hentry.unique hentry'
    rw [← hid', String.toList_inj] at hid
    exact ⟨rfl, by rw [hid]⟩
  all_goals exact ⟨rfl, rfl⟩

theorem Alternative.rank_lt (h : f.Alternative files current relativePath rank path hint) :
    rank < 6 := by
  cases h <;> decide

theorem passed_zero : f.Passed files current relativePath 0 :=
  fun _ _ _ hlt => absurd hlt (Nat.not_lt_zero _)

theorem passed_six_iff : f.Passed files current relativePath 6 ↔
    ∀ rank path hint, f.Alternative files current relativePath rank path hint →
      files.isFile current path = false :=
  ⟨fun h rank path hint halternative => h rank path hint halternative.rank_lt halternative,
    fun h rank path hint _ => h rank path hint⟩

theorem First.not_passed (h : f.First files current relativePath path hint) :
    ¬ f.Passed files current relativePath 6 := by
  intro hpassed
  obtain ⟨rank, halternative, hfile, -⟩ := h
  rw [hpassed rank path hint halternative.rank_lt halternative] at hfile
  cases hfile

theorem Passed.succ (h : f.Passed files current relativePath rank)
    (hnext : ∀ path hint, f.Alternative files current relativePath rank path hint →
      files.isFile current path = false) : f.Passed files current relativePath (rank + 1) := by
  intro rank' path hint hlt halternative
  rcases Nat.lt_succ_iff_lt_or_eq.1 hlt with hlt | rfl
  · exact h rank' path hint hlt halternative
  · exact hnext path hint halternative

/-- An alternative that is no file is passed, as it is the one of its rank. -/
theorem Passed.next (h : f.Passed files current relativePath rank)
    (halternative : f.Alternative files current relativePath rank path hint)
    (hfile : files.isFile current path = false) :
    f.Passed files current relativePath (rank + 1) := by
  refine h.succ fun path' hint' halternative' => ?_
  obtain ⟨rfl, -⟩ := halternative.unique halternative'
  exact hfile

theorem First.unique {path' : String} {hint' : Hint}
    (h : f.First files current relativePath path hint)
    (h' : f.First files current relativePath path' hint') : path = path' ∧ hint = hint' := by
  obtain ⟨rank, halternative, hfile, hpassed⟩ := h
  obtain ⟨rank', halternative', hfile', hpassed'⟩ := h'
  rcases Nat.lt_trichotomy rank rank' with hlt | rfl | hlt
  · rw [hpassed' rank path hint hlt halternative] at hfile
    cases hfile
  · exact halternative.unique halternative'
  · rw [hpassed rank' path' hint' hlt halternative'] at hfile'
    cases hfile'

end

theorem spellings_eq (f : FileFetcher) (base : String) : f.spellings base =
    [base, base ++ ".d.ts", base ++ "." ++ f.language.suffix] := by
  simp [spellings, suffixes, String.append_assoc]

theorem indexFiles_eq (f : FileFetcher) (base : String) : f.indexFiles base =
    [Path.join base "index.d.ts", Path.join base ("index." ++ f.language.suffix)] := by
  simp [indexFiles, suffixes]

/-! ### From rank to rank -/

theorem Passed.entry {found : Option String} (hpassed : f.Passed files current relativePath 3)
    (hentry : entry? files current (f.pathOf relativePath) = .ok found)
    (h : (found.filter fun entry =>
      files.isFile current (Path.join (f.pathOf relativePath) entry)) = none) :
    f.Passed files current relativePath 4 := by
  refine hpassed.succ ?_
  rintro _ _ ⟨⟩
  next entry identifier hdir hnamed hidentifier =>
    have hfound := entry?_eq_some_iff.2 hnamed
    obtain rfl := Except.ok.inj (hentry.symm.trans hfound)
    simpa using h

/-- What is not a directory has no alternatives below it. -/
theorem Passed.of_not_directory (hpassed : f.Passed files current relativePath 3)
    (h : files.isDirectory current (f.pathOf relativePath) = false) :
    f.Passed files current relativePath 6 := by
  intro rank path hint hlt halternative
  cases halternative with
  | exact => exact hpassed 0 _ _ (by decide) .exact
  | declaration => exact hpassed 1 _ _ (by decide) .declaration
  | source => exact hpassed 2 _ _ (by decide) .source
  | entry hdir => simp [h] at hdir
  | declarationIndex hdir => simp [h] at hdir
  | sourceIndex hdir => simp [h] at hdir

theorem first_of_spellings
    (h : (f.spellings (f.pathOf relativePath)).find? (files.isFile current) = some path) :
    f.First files current relativePath path .unchanged := by
  rw [spellings_eq] at h
  cases hexact : files.isFile current (f.pathOf relativePath) with
  | true =>
    obtain rfl : f.pathOf relativePath = path := by simpa [hexact] using h
    exact ⟨0, .exact, hexact, passed_zero⟩
  | false =>
    cases hdeclaration : files.isFile current (f.pathOf relativePath ++ ".d.ts") with
    | true =>
      obtain rfl : f.pathOf relativePath ++ ".d.ts" = path := by
        simpa [hexact, hdeclaration] using h
      exact ⟨1, .declaration, hdeclaration, passed_zero.next .exact hexact⟩
    | false =>
      rw [List.find?_cons_of_neg (by simp [hexact]),
        List.find?_cons_of_neg (by simp [hdeclaration])] at h
      have hsource := List.find?_some h
      obtain rfl := List.mem_singleton.1 (List.mem_of_find?_eq_some h)
      exact ⟨2, .source, hsource, (passed_zero.next .exact hexact).next .declaration hdeclaration⟩

theorem passed_spellings
    (h : (f.spellings (f.pathOf relativePath)).find? (files.isFile current) = none) :
    f.Passed files current relativePath 3 := by
  simp only [spellings_eq, List.find?_eq_none, List.forall_mem_cons, Bool.not_eq_true] at h
  obtain ⟨hexact, hdeclaration, hsource, -⟩ := h
  exact ((passed_zero.next .exact hexact).next .declaration hdeclaration).next .source hsource

theorem first_of_indexFiles (hpassed : f.Passed files current relativePath 4)
    (hdir : files.isDirectory current (f.pathOf relativePath) = true)
    (h : (f.indexFiles (f.pathOf relativePath)).find? (files.isFile current) = some path) :
    f.First files current relativePath path .directory := by
  rw [indexFiles_eq] at h
  cases hdeclaration : files.isFile current (Path.join (f.pathOf relativePath) "index.d.ts") with
  | true =>
    obtain rfl : Path.join (f.pathOf relativePath) "index.d.ts" = path := by
      simpa [hdeclaration] using h
    exact ⟨4, .declarationIndex hdir, hdeclaration, hpassed⟩
  | false =>
    rw [List.find?_cons_of_neg (by simp [hdeclaration])] at h
    have hsource := List.find?_some h
    obtain rfl := List.mem_singleton.1 (List.mem_of_find?_eq_some h)
    exact ⟨5, .sourceIndex hdir, hsource, hpassed.next (.declarationIndex hdir) hdeclaration⟩

theorem passed_indexFiles (hpassed : f.Passed files current relativePath 4)
    (hdir : files.isDirectory current (f.pathOf relativePath) = true)
    (h : (f.indexFiles (f.pathOf relativePath)).find? (files.isFile current) = none) :
    f.Passed files current relativePath 6 := by
  simp only [indexFiles_eq, List.find?_eq_none, List.forall_mem_cons, Bool.not_eq_true] at h
  obtain ⟨hdeclaration, hsource, -⟩ := h
  exact (hpassed.next (.declarationIndex hdir) hdeclaration).next (.sourceIndex hdir) hsource

/-- What is found is the first of the alternatives. -/
theorem Finds.first (h : f.Finds files current relativePath path hint) :
    Path.climbs relativePath = false ∧ f.First files current relativePath path hint := by
  have hpathOf {base : String} (hbase : f.basePath? relativePath = some base) :
      Path.climbs relativePath = false ∧ base = f.pathOf relativePath := by
    rw [basePath?_eq] at hbase
    split at hbase
    · cases hbase
    · next hclimbs => exact ⟨by simpa using hclimbs, (Option.some.inj hbase).symm⟩
  cases h with
  | spelled hbase hpath =>
    obtain ⟨hclimbs, rfl⟩ := hpathOf hbase
    exact ⟨hclimbs, first_of_spellings hpath⟩
  | @entry base entry hbase hnone hdir hentry hfile =>
    obtain ⟨hclimbs, rfl⟩ := hpathOf hbase
    have hhas := entry?_eq_some_iff.1 hentry
    exact ⟨hclimbs, 3, .entry hdir hhas (identifierFor_eq f _ entry), hfile,
      passed_spellings hnone⟩
  | index hbase hnone hdir hentry hmissing hpath =>
    obtain ⟨hclimbs, rfl⟩ := hpathOf hbase
    exact ⟨hclimbs, first_of_indexFiles ((passed_spellings hnone).entry hentry hmissing) hdir hpath⟩

/-! ### Requests -/

theorem first_of_fetch (h : f.fetch files current relativePath = .ok fetched) :
    Path.climbs relativePath = false ∧ ∃ path,
      f.First files current relativePath path fetched.hint ∧
      files.text? current path = some fetched.text := by
  obtain ⟨path, hfinds, hread⟩ := fetch_eq_ok_iff.1 h
  obtain ⟨hclimbs, hfirst⟩ := hfinds.first
  exact ⟨hclimbs, path, hfirst, read_eq_ok_iff.1 hread⟩

theorem serve_of_isText (htree : files.isText = true) (h : files.isFile current path = true)
    (hint : Hint) : ∃ text, serve files current path hint = .ok ⟨text, hint⟩ := by
  obtain ⟨text, htext⟩ := FileTree.exists_text htree h
  exact ⟨text, serve_eq_ok_iff.2 ⟨rfl, read_eq_ok_iff.2 htext⟩⟩

/-- A request that fails has been followed through all its alternatives. -/
theorem failed_of_fetch {e : FetchError} (htree : files.isText = true)
    (h : f.fetch files current relativePath = .error e) : e = .notFound relativePath ∧
      (Path.climbs relativePath = true ∨ f.Passed files current relativePath 6) := by
  have hserve {path : String} (hint : Hint) (hfile : files.isFile current path = true) :
      serve files current path hint ≠ .error e := by
    obtain ⟨text, htext⟩ := serve_of_isText htree hfile hint
    simp [htext]
  have hfailed : (.error (.notFound relativePath) : Except FetchError Fetched) = .error e →
      e = .notFound relativePath := fun he => (Except.error.inj he).symm
  unfold FileFetcher.fetch at h
  rw [basePath?_eq] at h
  cases hclimbs : Path.climbs relativePath with
  | true =>
    rw [hclimbs] at h
    exact ⟨hfailed h, .inl rfl⟩
  | false =>
    rw [hclimbs] at h
    simp only [Bool.false_eq_true, if_false] at h
    split at h
    · next path hpath => exact absurd h (hserve _ (List.find?_some hpath))
    · next hnone =>
      have hpassed := passed_spellings hnone
      split at h
      · next hdir =>
        obtain ⟨found, hentry⟩ := exists_entry_of_isText htree current (f.pathOf relativePath)
        unfold fetchDirectory at h
        simp only [hentry, bind, Except.bind] at h
        split at h
        · next entry hfilter =>
          exact absurd h (hserve _ (Option.filter_eq_some_iff.1 hfilter).2)
        · next hmissing =>
          split at h
          · next path hpath => exact absurd h (hserve _ (List.find?_some hpath))
          · next hindex =>
            exact ⟨hfailed h, .inr (passed_indexFiles (hpassed.entry hentry hmissing) hdir hindex)⟩
      · next hdir => exact ⟨hfailed h, .inr (hpassed.of_not_directory (by simpa using hdir))⟩

/-- **The first file is served, and nothing else happens:** in a tree of texts a request is
answered with the first of its alternatives that is a file, unless it climbs; it fails exactly
if it climbs or none of them is a file, and the failure is that it was not found. -/
theorem fetch_first (htree : files.isText = true) (f : FileFetcher) (current : Place)
    (relativePath : String) :
    (∀ fetched, f.fetch files current relativePath = .ok fetched ↔
      Path.climbs relativePath = false ∧ ∃ path,
        f.First files current relativePath path fetched.hint ∧
        files.text? current path = some fetched.text) ∧
    ∀ e, f.fetch files current relativePath = .error e ↔
      e = .notFound relativePath ∧ (Path.climbs relativePath = true ∨
        ∀ rank path hint, f.Alternative files current relativePath rank path hint →
          files.isFile current path = false) := by
  simp only [← passed_six_iff]
  refine ⟨fun fetched => ⟨first_of_fetch, ?_⟩, fun e => ⟨failed_of_fetch htree, ?_⟩⟩
  · obtain ⟨text, hint⟩ := fetched
    rintro ⟨hclimbs, path, hfirst, htext⟩
    cases hfetch : f.fetch files current relativePath with
    | ok fetched =>
      obtain ⟨-, path', hfirst', htext'⟩ := first_of_fetch hfetch
      obtain ⟨rfl, rfl⟩ := hfirst.unique hfirst'
      obtain rfl : text = fetched.text := Option.some.inj (htext.symm.trans htext')
      rfl
    | error e =>
      rcases (failed_of_fetch htree hfetch).2 with hclimbs' | hpassed
      · simp [hclimbs] at hclimbs'
      · exact absurd hpassed hfirst.not_passed
  · rintro ⟨rfl, hfailed⟩
    cases hfetch : f.fetch files current relativePath with
    | ok fetched =>
      obtain ⟨hclimbs, path, hfirst, -⟩ := first_of_fetch hfetch
      rcases hfailed with hclimbs' | hpassed
      · simp [hclimbs] at hclimbs'
      · exact absurd hpassed hfirst.not_passed
    | error e => rw [(failed_of_fetch htree hfetch).1]

/-- A package with a script beside it, a manifest that names no file, and a directory in the
place of its declarations. -/
def treeOfChoices : FileTree :=
  .directory [("project", .directory [("node_modules", .directory
    [("lib", .directory
      [("package.json", .file (some (manifestNaming "./missing.d.ts"))),
        ("index.d.ts", .directory []), ("index.ts", .file (some "export const a = 1;"))]),
      ("lib.js", .file (some "export const b = 1;"))])])]

/-- The last of the alternatives is served. -/
theorem fetch_first_choices :
    treeOfChoices.isText = true ∧
      fetcherOfProject.fetch treeOfChoices [] "lib" = .ok ⟨"export const a = 1;", .directory⟩ ∧
      ∃ path, fetcherOfProject.First treeOfChoices [] "lib" path .directory ∧
        treeOfChoices.text? [] path = some "export const a = 1;" := by
  have htree : treeOfChoices.isText = true := by decide
  have hfetch : fetcherOfProject.fetch treeOfChoices [] "lib" =
      .ok ⟨"export const a = 1;", .directory⟩ := by decide +kernel
  obtain ⟨-, hfirst⟩ := ((fetch_first htree fetcherOfProject [] "lib").1 _).1 hfetch
  exact ⟨htree, hfetch, hfirst⟩

end FileFetcher

end ModuleGraph
