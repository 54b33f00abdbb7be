/-
# What identifiers tell apart

A module is loaded once for each identifier, so an identifier should say what is asked for,
and the spellings of one directory should lead to one identifier.

An identifier is built from its target, with the index suffix behind it where a whole package
is meant, and what is asked for is cut out of the target again. Where the root of packages is
cut off from both of two targets or from neither, the identifiers agree exactly if the same is
asked for, or if one reference names a directory as a whole and the other its index
(`Candidate.identifier_eq_iff`).

The index suffix comes from two places, the candidate of a whole package and the hint that a
directory was served, and the hint writes it in two ways. Of these one and no other applies
to the spelling of a directory, whether it has a slash behind it or not
(`exists_indexIdentifier`). So two spellings give one identifier for its index file exactly
if they are resolved to one directory (`indexIdentifier_eq_iff`).

Key definitions: `indexIdentifier`, `Tidy`, `SameButSlash`, `LeadsTo`.
Key theorems: `Candidate.exists_front`, `Candidate.identifier_eq_iff`, `exists_leadsTo`,
`exists_indexIdentifier`, `indexIdentifier_eq_iff`.
-/
import ModuleGraph.Proofs.Slashes

namespace ModuleGraph

open Text Specifier

/-! ### What is asked for -/

namespace Candidate

/-- What stands behind the target in an identifier. -/
def suffix (assumesEntryPoint : Bool) : String := if assumesEntryPoint then indexSuffix else ""

theorem identifier_eq (base specifier dependencyRoot : String) :
    (Candidate.of base specifier dependencyRoot).identifier =
      target base specifier dependencyRoot ++
        suffix (Candidate.of base specifier dependencyRoot).assumesEntryPoint := by
  unfold Candidate.of suffix
  by_cases hwhole : (specifier == packageRoot specifier) = true
  · simp only [hwhole, if_true]
  · simp only [hwhole, if_false, Bool.false_eq_true, String.append_empty]

/-- The root of packages is cut off from two targets at once, or nothing is. -/
theorem exists_front {dependencyRoot target target' : String}
    (h : dependencyRoot.toList <+: target.toList ↔ dependencyRoot.toList <+: target'.toList) :
    ∃ front, target = front ++ withoutRoot dependencyRoot target ∧
      target' = front ++ withoutRoot dependencyRoot target' := by
  by_cases hunder : dependencyRoot.toList <+: target.toList
  · obtain ⟨rest, hrest⟩ := hunder
    obtain ⟨rest', hrest'⟩ := h.1 ⟨rest, hrest⟩
    refine ⟨dependencyRoot, ?_, ?_⟩
    · simp [← String.toList_inj, withoutRoot, ← hrest]
    · simp [← String.toList_inj, withoutRoot, ← hrest']
  · refine ⟨"", ?_, ?_⟩
    · simp [withoutRoot, withoutPrefix_of_not hunder]
    · simp [withoutRoot, withoutPrefix_of_not fun h' => hunder (h.2 h')]

variable {dependencyRoot base₁ base₂ specifier₁ specifier₂ : String}

/-- **Identifiers do not merge modules:** where the root of packages is cut off from both
targets or from neither, two references have one identifier exactly if the same is asked for
in the same way, or if the one names a package as a whole and the other its index. -/
theorem identifier_eq_iff
    (h : dependencyRoot.toList <+: (target base₁ specifier₁ dependencyRoot).toList ↔
      dependencyRoot.toList <+: (target base₂ specifier₂ dependencyRoot).toList) :
    let c₁ := Candidate.of base₁ specifier₁ dependencyRoot
    let c₂ := Candidate.of base₂ specifier₂ dependencyRoot
    c₁.identifier = c₂.identifier ↔
      (c₁.relativePath = c₂.relativePath ∧ c₁.assumesEntryPoint = c₂.assumesEntryPoint) ∨
      (c₂.relativePath = c₁.relativePath ++ indexSuffix ∧
        c₁.assumesEntryPoint = true ∧ c₂.assumesEntryPoint = false) ∨
      (c₁.relativePath = c₂.relativePath ++ indexSuffix ∧
        c₁.assumesEntryPoint = false ∧ c₂.assumesEntryPoint = true) := by
  intro c₁ c₂
  obtain ⟨front, h₁, h₂⟩ := exists_front h
  have hidentifiers : c₁.identifier = c₂.identifier ↔
      c₁.relativePath ++ suffix c₁.assumesEntryPoint =
        c₂.relativePath ++ suffix c₂.assumesEntryPoint := by
    rw [identifier_eq, identifier_eq, h₁, h₂, String.append_assoc, String.append_assoc]
    simp only [← String.toList_inj, String.toList_append, List.append_cancel_left_eq]
    rfl
  rw [hidentifiers]
  cases c₁.assumesEntryPoint <;> cases c₂.assumesEntryPoint <;>
    simp [suffix, ← String.toList_inj, eq_comm]

/-- A package as a whole and its index, by a path from one of its files. -/
theorem identifier_of_package :
    let c₁ := Candidate.of "/src/a" "@scope/pkg" defaultDependencyRoot
    let c₂ := Candidate.of "file:///node_modules/@scope/pkg/lib/x" "../index" defaultDependencyRoot
    (defaultDependencyRoot.toList <+: (target "/src/a" "@scope/pkg" defaultDependencyRoot).toList ↔
      defaultDependencyRoot.toList <+:
        (target "file:///node_modules/@scope/pkg/lib/x" "../index" defaultDependencyRoot).toList) ∧
      c₂.relativePath = c₁.relativePath ++ indexSuffix ∧ c₁.identifier = c₂.identifier := by
  have hroots : defaultDependencyRoot.toList <+:
        (target "/src/a" "@scope/pkg" defaultDependencyRoot).toList ↔
      defaultDependencyRoot.toList <+: (target "file:///node_modules/@scope/pkg/lib/x" "../index"
        defaultDependencyRoot).toList := by decide +kernel
  have hpaths : (Candidate.of "file:///node_modules/@scope/pkg/lib/x" "../index"
        defaultDependencyRoot).relativePath =
      (Candidate.of "/src/a" "@scope/pkg" defaultDependencyRoot).relativePath ++ indexSuffix := by
    decide +kernel
  exact ⟨hroots, hpaths, (identifier_eq_iff hroots).2
    (.inr (.inl ⟨hpaths, by decide +kernel, by decide +kernel⟩))⟩

end Candidate

/-! ### The spellings of a directory -/

/-- Under which identifier the index file is loaded that is served for a specifier. -/
def indexIdentifier (base specifier dependencyRoot : String) : String :=
  Hint.directory.apply (Candidate.of base specifier dependencyRoot).identifier
    (Candidate.of base specifier dependencyRoot).assumesEntryPoint

/-- A path from a file in which no two slashes follow each other and none comes first. -/
def Tidy (specifier : String) : Prop :=
  isBare specifier = false ∧ ∀ s ∈ (segments specifier.toList).dropLast, s ≠ []

instance (specifier : String) : Decidable (Tidy specifier) :=
  inferInstanceAs (Decidable (_ ∧ _))

theorem Tidy.head?_ne {specifier : String} (h : Tidy specifier) :
    specifier.toList.head? ≠ some '/' := by
  intro hhead
  obtain ⟨rest, hrest⟩ : ∃ rest, specifier.toList = '/' :: rest :=
    ⟨_, List.eq_cons_of_mem_head? hhead⟩
  refine h.2 [] ?_ rfl
  rw [hrest, segments, if_pos rfl, List.dropLast_cons_of_ne_nil (segments_ne_nil rest)]
  exact List.mem_cons_self

/-- Two paths are the same, but for one slash at the end. -/
def SameButSlash (path path' : String) : Prop :=
  path = path' ∨ path = path' ++ "/" ∨ path' = path ++ "/"

/-- A path is that of a directory, with a slash behind it or without. -/
def LeadsTo (path dir : String) : Prop :=
  dir.toList.getLast? ≠ some '/' ∧ (path = dir ∨ path = dir ++ "/")

theorem LeadsTo.sameButSlash_iff {path path' dir dir' : String} (h : LeadsTo path dir)
    (h' : LeadsTo path' dir') : SameButSlash path path' ↔ dir = dir' := by
  have hne {d : String} (hd : d.toList.getLast? ≠ some '/') (p : String) : d ≠ p ++ "/" := by
    rintro rfl
    simp at hd
  have hcancel (d d' : String) : d ++ "/" = d' ++ "/" ↔ d = d' := by
    simp [← String.toList_inj]
  obtain ⟨hlast, hpath⟩ := h
  obtain ⟨hlast', hpath'⟩ := h'
  unfold SameButSlash
  rcases hpath with rfl | rfl <;> rcases hpath' with rfl | rfl
  · simp [hne hlast, hne hlast']
  · simp [hcancel, hne hlast, eq_comm]
  · simp [hcancel, (hne hlast' _).symm, hne hlast']
  · simp [hcancel, hne hlast, hne hlast']

theorem getLast?_append_descend {path : List Char} {ss : List (List Char)}
    (hpath : path.getLast? ≠ some '/') (hss : ∀ s ∈ ss, s ≠ [] ∧ '/' ∉ s) :
    (path ++ descend ss).getLast? ≠ some '/' := by
  rcases List.eq_nil_or_concat' ss with rfl | ⟨front, s, rfl⟩
  · simpa using hpath
  · obtain ⟨hne, hno⟩ := hss s (by simp)
    have hend : path ++ descend (front ++ [s]) = path ++ descend front ++ ['/'] ++ s := by simp
    rw [hend, List.getLast?_append_of_ne_nil _ hne]
    exact fun h => hno (List.mem_of_getLast? h)

section

variable {base : List Char} (hbase : ∀ s ∈ (segments base).tail, s ≠ [])
include hbase

theorem getLast?_root : (root base).getLast? ≠ some '/' := by
  obtain ⟨n, hn⟩ := Nat.exists_eq_succ_of_ne_zero (rootLength_pos base).ne'
  obtain ⟨s, ss, hs⟩ := List.exists_cons_of_ne_nil (segments_ne_nil base)
  have hno : ∀ t ∈ s :: ss, '/' ∉ t := fun t ht => no_slash_of_mem_segments (hs ▸ ht)
  rw [root, hn, hs, List.take_succ_cons, joinSegments_eq_descend]
  refine getLast?_append_descend ?_ fun t ht => ?_
  · exact fun h => hno s List.mem_cons_self (List.mem_of_getLast? h)
  · have hmem : t ∈ ss := List.mem_of_mem_take ht
    exact ⟨hbase t (by simpa [hs] using hmem), hno t (List.mem_cons_of_mem s hmem)⟩

/-- Without empty segments in a file's identifier and in a path, there is none in the place
that the path leads to. -/
theorem ne_nil_of_mem_foldl {ss : List (List Char)} (hss : ∀ s ∈ ss, s ≠ []) :
    ∀ s ∈ ss.foldl Specifier.step (directory base), s ≠ [] := by
  intro s hs
  rcases mem_foldl_step hs with hdir | ⟨hpath, -⟩
  · obtain ⟨n, hn⟩ := Nat.exists_eq_succ_of_ne_zero (rootLength_pos base).ne'
    have hdrop := List.mem_of_mem_dropLast hdir
    rw [hn, ← List.drop_tail] at hdrop
    exact hbase s (List.mem_of_mem_drop hdrop)
  · exact hss s hpath

/-- A place without empty segments is the path of a directory. -/
theorem getLast?_place {ss : List (List Char)} (hss : ∀ s ∈ ss, s ≠ [] ∧ '/' ∉ s) :
    (root base ++ descend (ss.foldl Specifier.step (directory base))).getLast? ≠ some '/' :=
  getLast?_append_descend (getLast?_root hbase) fun s hs =>
    ⟨ne_nil_of_mem_foldl hbase (fun t ht => (hss t ht).1) s hs,
      no_slash_of_mem_foldl (fun t ht => (hss t ht).2) s hs⟩

end

section

variable {base specifier : String} (hbase : ∀ s ∈ (segments base.toList).tail, s ≠ [])
  (h : Tidy specifier)
include hbase h

/-- A spelling leads to a directory. A slash comes behind it only if there is one in the
spelling, and then no entry point is assumed. -/
theorem exists_leadsTo : ∃ dir, LeadsTo (resolve base specifier) dir ∧
    (specifier = packageRoot specifier → resolve base specifier = dir) := by
  have hresolve : resolvePath base.toList specifier.toList = _ := resolvePath_of_head_ne h.head?_ne
  obtain ⟨hbare, hinit⟩ := h
  obtain ⟨init, last, hsegments⟩ :=
    (List.eq_nil_or_concat' (segments specifier.toList)).resolve_left (segments_ne_nil _)
  have hno : ∀ s ∈ init ++ [last], '/' ∉ s := fun s hs => no_slash_of_mem_segments (hsegments ▸ hs)
  rw [hsegments, List.dropLast_concat] at hinit
  by_cases hlast : last = []
  · -- the slash behind the directory is an empty segment
    have hplace : (segments specifier.toList).foldl Specifier.step (directory base.toList) =
        init.foldl Specifier.step (directory base.toList) ++ [[]] := by
      rw [hsegments, hlast, List.foldl_append, List.foldl_cons, List.foldl_nil,
        step_of_isName (by decide)]
    set dir := root base.toList ++ descend (init.foldl Specifier.step (directory base.toList))
    have hend : dir.getLast? ≠ some '/' := getLast?_place hbase fun s hs =>
      ⟨hinit s hs, hno s (List.mem_append_left _ hs)⟩
    refine ⟨String.ofList dir, ⟨by rwa [String.toList_ofList], .inr ?_⟩, fun hwhole => ?_⟩
    · rw [resolve, hresolve, hplace]
      simp [← String.toList_inj, dir]
    · have hone := segments_of_no_slash (no_slash_of_whole hbare hwhole)
      rw [hsegments, hlast] at hone
      have hempty : [] = specifier.toList := by simpa using congrArg List.getLast? hone
      simp [isBare, ← hempty] at hbare
  · refine ⟨resolve base specifier, ⟨?_, .inl rfl⟩, fun _ => rfl⟩
    rw [resolve, String.toList_ofList, hresolve, hsegments]
    refine getLast?_place hbase fun s hs => ⟨?_, hno s hs⟩
    rcases List.mem_append.1 hs with hs | hs
    · exact hinit s hs
    · rwa [List.mem_singleton.1 hs]

/-- **The index suffix is put once:** the index file of a directory is known under the path
of the directory with the suffix behind it, however the directory is spelled. -/
theorem exists_indexIdentifier (dependencyRoot : String) :
    ∃ dir, LeadsTo (resolve base specifier) dir ∧
      indexIdentifier base specifier dependencyRoot = dir ++ indexSuffix := by
  obtain ⟨dir, hdir, hwhole⟩ := exists_leadsTo hbase h
  refine ⟨dir, hdir, ?_⟩
  unfold indexIdentifier Candidate.of Hint.apply Candidate.target
  simp only [h.1, Bool.false_eq_true, if_false, beq_iff_eq]
  obtain ⟨hlast, hpath⟩ := hdir
  by_cases hpart : specifier = packageRoot specifier
  · rw [if_pos hpart, if_pos hpart, hwhole hpart]
  · rw [if_neg hpart, if_neg hpart]
    rcases hpath with hpath | hpath
    · rw [hpath, if_neg hlast]
    · have hindex : indexSuffix = "/" ++ "index" := by decide
      rw [hpath, if_pos (by simp), String.append_assoc, ← hindex]

end

/-- **The spellings of a directory converge:** paths from one file without empty segments,
but for the last, give the same identifier for the index file of what they lead to exactly
if they are resolved to the same path, but for one slash at the end; and it is the path of
the directory with the index suffix behind it. -/
theorem indexIdentifier_eq_iff {base specifier₁ specifier₂ : String}
    (hbase : ∀ s ∈ (segments base.toList).tail, s ≠ []) (h₁ : Tidy specifier₁)
    (h₂ : Tidy specifier₂) (dependencyRoot : String) :
    (indexIdentifier base specifier₁ dependencyRoot =
        indexIdentifier base specifier₂ dependencyRoot ↔
      SameButSlash (resolve base specifier₁) (resolve base specifier₂)) ∧
    ∃ dir₁ dir₂, LeadsTo (resolve base specifier₁) dir₁ ∧ LeadsTo (resolve base specifier₂) dir₂ ∧
      indexIdentifier base specifier₁ dependencyRoot = dir₁ ++ indexSuffix ∧
      indexIdentifier base specifier₂ dependencyRoot = dir₂ ++ indexSuffix := by
  obtain ⟨dir₁, hdir₁, hindex₁⟩ := exists_indexIdentifier hbase h₁ dependencyRoot
  obtain ⟨dir₂, hdir₂, hindex₂⟩ := exists_indexIdentifier hbase h₂ dependencyRoot
  refine ⟨?_, dir₁, dir₂, hdir₁, hdir₂, hindex₁, hindex₂⟩
  rw [hindex₁, hindex₂, hdir₁.sameButSlash_iff hdir₂]
  simp [← String.toList_inj]

/-- A dot, for which an entry point is assumed, and the way out and back with a slash behind
it. -/
theorem indexIdentifier_of_dot :
    Tidy "." ∧ Tidy "../src/" ∧ resolve "/src/a" "../src/" = resolve "/src/a" "." ++ "/" ∧
      indexIdentifier "/src/a" "." defaultDependencyRoot =
        indexIdentifier "/src/a" "../src/" defaultDependencyRoot := by
  have hdot : Tidy "." := by decide
  have hback : Tidy "../src/" := by decide
  have hslash : resolve "/src/a" "../src/" = resolve "/src/a" "." ++ "/" := by decide
  have hbase : ∀ s ∈ (segments "/src/a".toList).tail, s ≠ [] := by decide
  obtain ⟨hiff, -⟩ := indexIdentifier_eq_iff hbase hdot hback defaultDependencyRoot
  exact ⟨hdot, hback, hslash, hiff.2 (.inr (.inr hslash))⟩

end ModuleGraph
