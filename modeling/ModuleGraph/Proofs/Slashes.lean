/-
# Rows of slashes in identifiers

Fetching from files takes the slashes at the beginning of a path away, so one file is
served for identifiers that differ in their number. Whether loads that go from file to
file meet finitely many identifiers is therefore a matter of how many slashes may follow
each other (`Rows`).

A path that is resolved against an identifier takes over some of its directories, as
many as it does not climb out of, and adds its own segments (`Extends`). Of these only
an empty one prolongs a row of slashes, and an empty segment that is not the last one
comes of two slashes in the path. So a specifier without these makes no longer row than
there was (`rows_resolvePath`, `rows_candidate`), and neither does a hint to a
directory (`rows_directory`).

Key definitions: `Rows`, `Extends`, `Plain`.
Key theorems: `rows_append_cons`, `Extends.foldl`, `rows_resolvePath`, `rows_candidate`,
`rows_directory`, `length_candidate_le`.
-/
import ModuleGraph.Candidate
import ModuleGraph.Proofs.Resolution

namespace ModuleGraph

open Text Specifier

/-! ### Rows -/

/-- No more than so many slashes follow each other. -/
def Rows (k : Nat) (cs : List Char) : Prop := ¬ List.replicate (k + 1) '/' <:+: cs

variable {k : Nat} {as bs cs : List Char}

theorem Rows.part (h : Rows k cs) (hi : bs <:+: cs) : Rows k bs := fun hb => h (hb.trans hi)

theorem rows_of_count (h : cs.count '/' ≤ k) : Rows k cs := by
  intro hi
  have hle := hi.count_le '/'
  rw [List.count_replicate_self] at hle
  omega

theorem rows_of_length (h : cs.length ≤ k) : Rows k cs :=
  rows_of_count (List.count_le_length.trans h)

theorem takeWhile_slashes (cs : List Char) : cs.takeWhile (· == '/') =
    List.replicate (cs.takeWhile (· == '/')).length '/' :=
  List.eq_replicate_of_mem fun c hc => by
    simpa using List.all_eq_true.1 List.all_takeWhile c hc

theorem Rows.length_takeWhile_le (h : Rows k cs) : (cs.takeWhile (· == '/')).length ≤ k := by
  by_contra hlong
  obtain ⟨n, hn⟩ := Nat.exists_eq_add_of_le (Nat.lt_of_not_le hlong)
  have hbegins : List.replicate (k + 1) '/' <+: cs.takeWhile (· == '/') :=
    ⟨List.replicate n '/', by rw [← List.replicate_add, takeWhile_slashes, hn]⟩
  have hprefix : cs.takeWhile (· == '/') <+: cs := List.takeWhile_prefix _
  exact h (hbegins.trans hprefix).isInfix

/-- A row does not go past another character. -/
theorem rows_append_cons {c : Char} (hc : c ≠ '/') (ha : Rows k as) (hb : Rows k bs) :
    Rows k (as ++ c :: bs) := by
  rintro ⟨s, t, h⟩
  rw [List.append_assoc] at h
  rcases List.append_eq_append_iff.1 h with ⟨r, rfl, hr⟩ | ⟨r, rfl, hr⟩
  · rcases List.append_eq_append_iff.1 hr with ⟨u, rfl, -⟩ | ⟨u, hu, hcons⟩
    · exact ha ⟨s, u, by simp⟩
    · rcases List.append_eq_cons_iff.1 hcons.symm with ⟨rfl, -⟩ | ⟨v, rfl, -⟩
      · exact ha ⟨s, [], by simpa using hu⟩
      · have hm : c ∈ List.replicate (k + 1) '/' := by simp [hu]
        exact hc (List.eq_of_mem_replicate hm)
  · rcases List.append_eq_cons_iff.1 hr.symm with ⟨-, hcons⟩ | ⟨v, -, rfl⟩
    · rw [List.replicate_succ] at hcons
      exact hc (List.cons.inj hcons).1.symm
    · exact hb ⟨v, t, by simp⟩

/-! ### Segments -/

theorem segments_replicate_append (n : Nat) (cs : List Char) :
    segments (List.replicate n '/' ++ cs) = List.replicate n [] ++ segments cs := by
  induction n with
  | zero => rfl
  | succ n ih => simp [List.replicate_succ, segments, ih]

/-- A root has at most one slash. -/
theorem count_root_le (path : List Char) : (root path).count '/' ≤ 1 := by
  have hseg : ∀ s ∈ segments path, s.count '/' = 0 := fun s hs =>
    List.count_eq_zero.2 (no_slash_of_mem_segments hs)
  obtain ⟨s, ss, hs⟩ := List.exists_cons_of_ne_nil (segments_ne_nil path)
  rw [hs] at hseg
  have h0 := hseg s List.mem_cons_self
  have hlen : rootLength path = 1 ∨ rootLength path = 2 := by
    rw [rootLength_eq]
    split <;> simp
  rcases hlen with h | h
  · simp [root, h, hs, joinSegments, h0]
  · cases ss with
    | nil => simp [root, h, hs, joinSegments, h0]
    | cons t ss => simp [root, h, hs, joinSegments, h0, hseg t (by simp)]

/-- What is above a directory of an identifier, and a slash, has no longer rows than the
identifier. -/
theorem rows_above {base : List Char} (hk : 2 ≤ k) (hb : Rows k base) (n : Nat) :
    Rows k (root base ++ descend ((directory base).take n) ++ ['/']) := by
  rcases List.eq_nil_or_concat' ((segments base).drop (rootLength base)) with h | ⟨dir, last, h⟩
  · refine rows_of_count ?_
    have hroot := count_root_le base
    simp [directory, h]
    omega
  · refine hb.part ?_
    have hdir : directory base = dir := by simp [directory, h]
    rw [hdir]
    conv_rhs => rw [← root_append_descend base, h, ← List.take_append_drop n dir]
    -- what is cut off begins with a slash, be it only that of the last segment
    obtain ⟨rest, hrest⟩ : ∃ rest, descend (dir.drop n ++ [last]) = '/' :: rest := by
      cases dir.drop n with
      | nil => exact ⟨last, by simp⟩
      | cons s ss => exact ⟨_, descend_cons s (ss ++ [last])⟩
    rw [List.append_assoc, List.append_assoc, descend_append, hrest]
    exact ⟨[], rest, by simp⟩

/-- A place below a file's directory: what a path does not climb out of, and further
segments that are not empty. -/
def Extends (dir place : List (List Char)) : Prop :=
  ∃ n new, place = dir.take n ++ new ∧ ∀ s ∈ new, s ≠ [] ∧ '/' ∉ s

namespace Extends

variable {place : List (List Char)}

theorem foldl {ss : List (List Char)} (dir : List (List Char))
    (hss : ∀ s ∈ ss, s ≠ [] ∧ '/' ∉ s) : Extends dir (ss.foldl Specifier.step dir) := by
  rw [foldl_step]
  exact ⟨_, _, rfl, fun s hs => hss s ((Route.names_sublist ss).subset hs)⟩

/-- Segments that are not empty prolong no row of slashes, not even one that a slash
behind them would. -/
theorem rows {base : List Char} (h : Extends (directory base) place) (hk : 2 ≤ k)
    (hb : Rows k base) : Rows k (root base ++ descend place ++ ['/']) := by
  obtain ⟨n, new, rfl, hnew⟩ := h
  induction new using List.reverseRecOn with
  | nil => simpa using rows_above hk hb n
  | append_singleton new s ih =>
    have hrest := ih fun t ht => hnew t (List.mem_append_left _ ht)
    obtain ⟨hne, hs⟩ := hnew s (by simp)
    obtain ⟨c, s, rfl⟩ := List.exists_cons_of_ne_nil hne
    have hc : c ≠ '/' := fun hc => hs (hc ▸ List.mem_cons_self)
    have hlast : Rows k (s ++ ['/']) := by
      have h0 : s.count '/' = 0 := List.count_eq_zero.2 fun hm => hs (List.mem_cons_of_mem _ hm)
      refine rows_of_count ?_
      simp [h0]
      omega
    simpa using rows_append_cons hc hrest hlast

end Extends

/-! ### Resolution -/

/-- Where no two slashes follow each other and none comes first, only the last segment
can be empty. -/
theorem segments_eq_concat {path : List Char} (hhead : path.head? ≠ some '/')
    (hp : Rows 1 path) : ∃ init last, segments path = init ++ [last] ∧
      (∀ s ∈ init, s ≠ [] ∧ '/' ∉ s) ∧ '/' ∉ last := by
  rcases List.eq_nil_or_concat' (segments path) with h | ⟨init, last, h⟩
  · exact absurd h (segments_ne_nil path)
  · have hslash : ∀ s ∈ init ++ [last], '/' ∉ s := fun s hs =>
      no_slash_of_mem_segments (h ▸ hs)
    refine ⟨init, last, h, fun s hs => ⟨?_, hslash s (by simp [hs])⟩, hslash last (by simp)⟩
    rintro rfl
    obtain ⟨before, after, rfl⟩ := List.append_of_mem hs
    have hpath := joinSegments_segments path
    obtain ⟨t, rest, ht⟩ : ∃ t rest, after ++ [last] = t :: rest := by
      cases after with
      | nil => exact ⟨last, [], rfl⟩
      | cons t ts => exact ⟨t, ts ++ [last], rfl⟩
    rw [h, List.append_assoc, List.cons_append, ht] at hpath
    cases before with
    | nil =>
      rw [List.nil_append, joinSegments_eq_descend, List.nil_append, descend_cons] at hpath
      exact hhead (by simp [← hpath])
    | cons s before =>
      rw [List.cons_append, joinSegments_eq_descend, descend_append, descend_cons,
        List.nil_append, descend_cons] at hpath
      exact hp ⟨s ++ descend before, t ++ descend rest, by simpa using hpath⟩

/-- A path in which no two slashes follow each other makes no row longer. -/
theorem rows_resolvePath {base path : List Char} (hk : 2 ≤ k) (hb : Rows k base)
    (hhead : path.head? ≠ some '/') (hp : Rows 1 path) : Rows k (resolvePath base path) := by
  obtain ⟨init, last, hseg, hinit, hlast⟩ := segments_eq_concat hhead hp
  rw [resolvePath_of_head_ne hhead, hseg]
  by_cases hempty : last = []
  · subst hempty
    rw [List.foldl_append, List.foldl_cons, List.foldl_nil]
    simpa [Specifier.step] using (Extends.foldl (directory base) hinit).rows hk hb
  · have hall : ∀ s ∈ init ++ [last], s ≠ [] ∧ '/' ∉ s := fun s hs => by
      rcases List.mem_append.1 hs with hs | hs
      · exact hinit s hs
      · obtain rfl := List.mem_singleton.1 hs
        exact ⟨hempty, hlast⟩
    exact ((Extends.foldl (directory base) hall).rows hk hb).part
      (List.prefix_append _ _).isInfix

/-! ### Candidates -/

/-- A specifier that names a package, or begins at the root, or in which no two slashes
follow each other. -/
def Plain (specifier : String) : Prop :=
  isBare specifier = true ∨ specifier.toList.head? = some '/' ∨ Rows 1 specifier.toList

theorem rootLength_of_not_bare {specifier : String} (h : isBare specifier = false) :
    rootLength specifier.toList = 1 := by
  unfold isBare at h
  split at h
  · next hs => simp [hs, rootLength]
  · next hs => simp [hs, rootLength]
  · next hs => simp [hs, rootLength]
  · simp at h

/-- A path that assumes an entry point is a single segment. -/
theorem no_slash_of_whole {specifier : String} (hbare : isBare specifier = false)
    (hwhole : specifier = packageRoot specifier) : '/' ∉ specifier.toList := by
  have hlen := rootLength_of_not_bare hbare
  obtain ⟨s, ss, hs⟩ := List.exists_cons_of_ne_nil (segments_ne_nil specifier.toList)
  have hroot : specifier.toList = s := by
    conv_lhs => rw [hwhole]
    simp [packageRoot, root, hlen, hs, joinSegments]
  rw [hroot]
  exact no_slash_of_mem_segments (hs ▸ List.mem_cons_self)

theorem rows_ndex (k : Nat) : Rows k "ndex".toList := by
  have hcount : "ndex".toList.count '/' = 0 := by decide
  exact rows_of_count (hcount ▸ Nat.zero_le k)

/-- The entry point below what a single segment leads to. -/
theorem rows_entryPoint {base path : List Char} (hk : 2 ≤ k) (hb : Rows k base)
    (hne : path ≠ []) (hslash : '/' ∉ path) :
    Rows k (resolvePath base path ++ indexSuffix.toList) := by
  have hplace : Extends (directory base) ([path].foldl Specifier.step (directory base)) :=
    .foldl _ (by simp [hne, hslash])
  have hhead : path.head? ≠ some '/' := fun h => hslash (List.mem_of_mem_head? h)
  have hindex : indexSuffix.toList = ['/'] ++ 'i' :: "ndex".toList := by decide
  rw [resolvePath_of_head_ne hhead, segments_of_no_slash hslash, hindex, ← List.append_assoc]
  exact rows_append_cons (by decide) (hplace.rows hk hb) (rows_ndex k)

theorem target_of_not_bare (base dependencyRoot : String) {specifier : String}
    (hbare : isBare specifier = false) : Candidate.target base specifier dependencyRoot =
      String.ofList (resolvePath base.toList specifier.toList) := by
  simp [Candidate.target, hbare, Specifier.resolve]

theorem rows_resolvePath_of_plain {base : List Char} {specifier : String}
    (hk : specifier.length + 2 ≤ k) (hb : Rows k base) (hbare : isBare specifier = false)
    (hp : Plain specifier) : Rows k (resolvePath base specifier.toList) := by
  rw [← String.length_toList] at hk
  by_cases hhead : specifier.toList.head? = some '/'
  · refine rows_of_count ?_
    have hroot := count_root_le base
    have hcount := List.count_le_length (a := '/') (l := specifier.toList)
    rw [resolvePath_of_head hhead, List.count_append]
    omega
  · have hrows : Rows 1 specifier.toList := by
      rcases hp with hp | hp | hp
      · simp [hbare] at hp
      · exact absurd hp hhead
      · exact hp
    exact rows_resolvePath (by omega) hb hhead hrows

/-- A plain specifier makes a row no longer than there was, or than it is long itself
with the root of packages. -/
theorem rows_candidate {base specifier dependencyRoot : String}
    (hk : dependencyRoot.length + specifier.length + 6 ≤ k) (hb : Rows k base.toList)
    (hp : Plain specifier) :
    Rows k (Candidate.of base specifier dependencyRoot).identifier.toList := by
  cases hbare : isBare specifier with
  | true =>
    have hlen : specifier.toList.length = specifier.length := String.length_toList
    have hroot : dependencyRoot.toList.length = dependencyRoot.length := String.length_toList
    have hindex : indexSuffix.toList.length = 6 := by decide
    refine rows_of_length ?_
    simp only [Candidate.of, Candidate.target, hbare, if_true]
    split <;> simp <;> omega
  | false =>
    have htarget := target_of_not_bare base dependencyRoot hbare
    by_cases hwhole : specifier = packageRoot specifier
    · have hslash := no_slash_of_whole hbare hwhole
      have hne : specifier.toList ≠ [] := by
        intro hnil
        simp [isBare, hnil] at hbare
      have hrows := rows_entryPoint (k := k) (by omega) hb hne hslash
      simpa [Candidate.of, htarget, ← hwhole] using hrows
    · have hrows := rows_resolvePath_of_plain (k := k) (by omega) hb hbare hp
      simpa [Candidate.of, htarget, hwhole] using hrows

/-- What is asked for is part of the identifier. -/
theorem relativePath_part (base specifier dependencyRoot : String) :
    (Candidate.of base specifier dependencyRoot).relativePath.toList <:+:
      (Candidate.of base specifier dependencyRoot).identifier.toList := by
  set target := Candidate.target base specifier dependencyRoot
  have hpath : (Candidate.of base specifier dependencyRoot).relativePath.toList <:+:
      target.toList := by
    simp only [Candidate.of, Candidate.withoutRoot, withoutPrefix, String.toList_ofList]
    split
    · exact (List.drop_suffix _ _).isInfix
    · exact List.infix_refl _
  refine hpath.trans ?_
  simp only [Candidate.of]
  split
  · rw [String.toList_append]
    exact (List.prefix_append _ _).isInfix
  · exact List.infix_refl _

theorem length_candidate_le (base specifier dependencyRoot : String) :
    (Candidate.of base specifier dependencyRoot).identifier.length ≤ dependencyRoot.length +
      (Candidate.of base specifier dependencyRoot).relativePath.length + 6 := by
  set target := Candidate.target base specifier dependencyRoot with htarget
  have hindex : indexSuffix.length = 6 := by decide
  have hpath : target.length ≤ dependencyRoot.length +
      (Candidate.of base specifier dependencyRoot).relativePath.length := by
    simp only [Candidate.of, Candidate.withoutRoot, withoutPrefix, String.length_ofList,
      ← htarget]
    split
    · simp only [List.length_drop, String.length_toList]
      omega
    · simp only [String.length_toList]
      omega
  refine Nat.le_trans ?_ (Nat.add_le_add_right hpath 6)
  simp only [Candidate.of, ← htarget]
  split
  · simp [hindex]
  · exact Nat.le_add_right _ _

theorem length_directory_le (id : String) (assumed : Bool) :
    (Hint.directory.apply id assumed).length ≤ id.length + 6 := by
  have hindex : indexSuffix.length = 6 := by decide
  have hname : "index".length = 5 := by decide
  unfold Hint.apply
  cases assumed with
  | true => exact Nat.le_add_right _ _
  | false =>
    by_cases hlast : id.toList.getLast? = some '/' <;> simp [hlast, hindex, hname]

/-- The index file of a directory makes no row of slashes longer. -/
theorem rows_directory {id : String} (hk : 1 ≤ k) (hid : Rows k id.toList) (assumed : Bool) :
    Rows k (Hint.directory.apply id assumed).toList := by
  unfold Hint.apply
  cases assumed with
  | true => exact hid
  | false =>
    by_cases hlast : id.toList.getLast? = some '/'
    · have hsuffix : "index".toList = 'i' :: "ndex".toList := by decide
      simpa [hlast, hsuffix] using rows_append_cons (by decide) hid (rows_ndex k)
    · have hsuffix : Rows k indexSuffix.toList := by
        refine rows_of_count ?_
        have hcount : indexSuffix.toList.count '/' = 1 := by decide
        omega
      rcases List.eq_nil_or_concat' id.toList with hnil | ⟨front, c, hc⟩
      · simpa [hlast, hnil] using hsuffix
      · have hne : c ≠ '/' := by
          rintro rfl
          exact hlast (by simp [hc])
        have hfront : Rows k front := hid.part (by rw [hc]; exact (List.prefix_append ..).isInfix)
        simpa [hne, hc] using rows_append_cons hne hfront hsuffix

end ModuleGraph
