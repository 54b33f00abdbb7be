/-
# Paths that stay below a directory

A path that is written as a directory joined with a relative path lies below it, as long
as the relative path, followed segment by segment, never climbs above where it begins
(`Path.Below`). This is said of the text alone; whatever tree the path is followed in, it
leads to the place of the directory or to one below that (`Path.Below.follow`).

Key definitions: `Path.enter`, `Path.depth?`, `Path.Below`.
Key theorems: `Path.toList_join`, `Path.join_join`, `Path.depth?_append`,
`Path.Below.trans`, `Path.below_of_no_parent`, `FileTree.followAll_steps_join`,
`Path.Below.follow`.
-/
import Mathlib.Data.List.Basic
import ModuleGraph.FileTree

namespace ModuleGraph

open Text

/-! ### Segments -/

/-- What is appended without a slash goes to the last segment. -/
theorem segments_append_of_no_slash (a : List Char) : ∃ front last, segments a = front ++ [last] ∧
    ∀ {b : List Char}, '/' ∉ b → segments (a ++ b) = front ++ [last ++ b] := by
  induction a with
  | nil => exact ⟨[], [], rfl, fun hb => by simpa using segments_of_no_slash hb⟩
  | cons c a ih =>
    obtain ⟨front, last, ha, happend⟩ := ih
    by_cases hc : c = '/'
    · exact ⟨[] :: front, last, by simp [segments, hc, ha],
        fun hb => by simp [segments, hc, happend hb]⟩
    · cases front with
      | nil =>
        exact ⟨[], c :: last, by simp [segments, hc, ha],
          fun hb => by simp [segments, hc, happend hb]⟩
      | cons s front =>
        exact ⟨(c :: s) :: front, last, by simp [segments, hc, ha],
          fun hb => by simp [segments, hc, happend hb]⟩

/-- A segment that has nothing to replace is one of the text with the replacements too. -/
theorem mem_segments_map (swap : Char → Char) (hslash : swap '/' = '/') {s : List Char}
    (hs : s.map swap = s) {cs : List Char} (h : s ∈ segments cs) :
    s ∈ segments (cs.map swap) := by
  have hno := no_slash_of_mem_segments h
  suffices ∀ ss : List (List Char), s ∈ ss → s ∈ segments ((joinSegments ss).map swap) by
    simpa [joinSegments_segments] using this (segments cs) h
  intro ss hm
  induction ss with
  | nil => simp at hm
  | cons t ss ih =>
    have hself (ht : s = t) : s ∈ segments (t.map swap) := by
      rw [← ht, hs, segments_of_no_slash hno]
      exact List.mem_singleton_self s
    cases ss with
    | nil => exact hself (List.mem_singleton.1 hm)
    | cons u ss =>
      rw [joinSegments_cons t (List.cons_ne_nil u ss), List.map_append, List.map_cons, hslash,
        segments_append_cons_slash, List.mem_append]
      exact (List.mem_cons.1 hm).imp hself ih

namespace Path

/-! ### Joining -/

/-- The beginning of what stands in a directory: its path, with a slash if it needs one. -/
def enter (base : List Char) : List Char :=
  if base = [] ∨ base.getLast? = some '/' then base else base ++ ['/']

@[simp] theorem enter_nil : enter [] = [] := rfl

theorem isAbsolute_iff (path : String) : isAbsolute path = true ↔ path.toList.head? = some '/' := by
  simp [isAbsolute]

theorem isAbsolute_eq_false_iff (path : String) :
    isAbsolute path = false ↔ path.toList.head? ≠ some '/' := by
  rw [Ne, ← isAbsolute_iff, Bool.not_eq_true]

theorem join_of_isAbsolute {path : String} (base : String) (h : isAbsolute path = true) :
    join base path = path := by
  simp [join, h]

theorem toList_join {path : String} (base : String) (h : isAbsolute path = false) :
    (join base path).toList = enter base.toList ++ path.toList := by
  have hempty : base.isEmpty = true ↔ base.toList = [] := by
    rw [String.isEmpty_iff, ← String.toList_eq_nil_iff]
  unfold join enter endsWithSlash
  simp only [h, Bool.or_eq_true, hempty, beq_iff_eq, Bool.false_eq_true, if_false]
  split <;> simp

theorem enter_enter (base : List Char) : enter (enter base) = enter base := by
  unfold enter
  split <;> simp_all

theorem enter_append (base path : List Char) :
    enter (enter base ++ path) = enter base ++ enter path := by
  by_cases hpath : path = []
  · simp [hpath, enter_enter]
  · obtain ⟨front, c, rfl⟩ := (List.eq_nil_or_concat' path).resolve_left hpath
    by_cases hc : c = '/' <;> simp [enter, hc]

/-- What begins in a directory begins as the directory does. -/
theorem isAbsolute_join {path : String} (base : String) (h : isAbsolute path = false) :
    isAbsolute (join base path) = isAbsolute base := by
  rw [Bool.eq_iff_iff, isAbsolute_iff, isAbsolute_iff, toList_join base h]
  cases hb : base.toList with
  | nil => simpa [hb] using (isAbsolute_eq_false_iff path).1 h
  | cons c cs =>
    unfold enter
    split <;> simp

/-- A path in a directory of a directory is one in the first. -/
theorem join_join {path path' : String} (base : String) (h : isAbsolute path = false)
    (h' : isAbsolute path' = false) :
    join (join base path) path' = join base (join path path') := by
  have hjoin : isAbsolute (join path path') = false := (isAbsolute_join path h').trans h
  rw [← String.toList_inj, toList_join _ h', toList_join _ h, toList_join _ hjoin,
    toList_join _ h', enter_append, List.append_assoc]

theorem join_append {path : String} (base tail : String) (h : isAbsolute path = false)
    (h' : isAbsolute (path ++ tail) = false) :
    join base path ++ tail = join base (path ++ tail) := by
  rw [← String.toList_inj, String.toList_append, toList_join _ h, toList_join _ h',
    String.toList_append, List.append_assoc]

/-- The segments of a path in a directory are those of the directory, without the empty
one at its end, and those of the path. -/
theorem segments_enter_append (base path : List Char) : ∃ front,
    (segments base = front ∨ segments base = front ++ [[]]) ∧
      (base ≠ [] → front ≠ []) ∧ segments (enter base ++ path) = front ++ segments path := by
  by_cases hbase : base = []
  · exact ⟨[], by simp [hbase, segments]⟩
  · obtain ⟨front, c, rfl⟩ := (List.eq_nil_or_concat' base).resolve_left hbase
    by_cases hc : c = '/'
    · subst hc
      have hsplit := segments_append_cons_slash front []
      exact ⟨segments front, .inr hsplit, fun _ => segments_ne_nil front,
        by simp [enter, segments_append_cons_slash]⟩
    · exact ⟨segments (front ++ [c]), .inl rfl, fun _ => segments_ne_nil _, by
        simpa [enter, hc] using segments_append_cons_slash (front ++ [c]) path⟩

/-! ### Climbing -/

/-- How far below where it begins a path leads, from so far below already; none if it
climbs above on the way. Empty segments and dots stay, two dots climb. -/
def depth? : Nat → List (List Char) → Option Nat
  | depth, [] => some depth
  | depth, s :: ss =>
    if s = [] ∨ s = ['.'] then depth? depth ss
    else if s = ['.', '.'] then
      match depth with
      | 0 => none
      | above + 1 => depth? above ss
    else depth? (depth + 1) ss

theorem depth?_append (depth : Nat) (ss ts : List (List Char)) :
    depth? depth (ss ++ ts) = (depth? depth ss).bind fun d => depth? d ts := by
  induction ss generalizing depth with
  | nil => rfl
  | cons s ss ih =>
    simp only [List.cons_append, depth?]
    split
    · exact ih depth
    · split
      · cases depth with
        | zero => rfl
        | succ above => exact ih above
      · exact ih (depth + 1)

/-- From further below a path leads as much further. -/
theorem depth?_add {depth d : Nat} (k : Nat) {ss : List (List Char)}
    (h : depth? depth ss = some d) : depth? (depth + k) ss = some (d + k) := by
  induction ss generalizing depth with
  | nil => simpa [depth?] using h
  | cons s ss ih =>
    simp only [depth?] at h ⊢
    split at h
    · next hstay => simpa [hstay] using ih h
    · next hstay =>
      rw [if_neg hstay]
      split at h
      · next hclimb =>
        cases depth with
        | zero => simp at h
        | succ above => simpa [hclimb, Nat.succ_add] using ih h
      · next hclimb =>
        rw [if_neg hclimb, Nat.add_right_comm]
        exact ih h

/-- A path without two dots does not climb. -/
theorem isSome_depth? {ss : List (List Char)} (h : ['.', '.'] ∉ ss) (depth : Nat) :
    (depth? depth ss).isSome = true := by
  induction ss generalizing depth with
  | nil => rfl
  | cons s ss ih =>
    obtain ⟨hs, hss⟩ := not_or.1 fun hm => h (List.mem_cons.2 hm)
    simp only [depth?, if_neg (Ne.symm hs)]
    split <;> exact ih hss _

theorem no_parent_of_not_climbs {path : String} (h : climbs path = false) :
    ['.', '.'] ∉ segments path.toList := by
  intro hm
  have hswap := mem_segments_map (fun c => if c = '\\' then '/' else c) (by simp)
    (by simp) hm
  simp [climbs, hswap] at h

/-- An ending that is not a dot makes no two dots. -/
theorem no_parent_append {a b : List Char} (ha : ['.', '.'] ∉ segments a) (hb : '/' ∉ b)
    (hlast : ∃ c, b.getLast? = some c ∧ c ≠ '.') : ['.', '.'] ∉ segments (a ++ b) := by
  obtain ⟨front, last, hsegments, happend⟩ := segments_append_of_no_slash a
  obtain ⟨c, hc, hdot⟩ := hlast
  rw [happend hb, List.mem_append, List.mem_singleton]
  rintro (hm | he)
  · exact ha (hsegments ▸ List.mem_append_left _ hm)
  · have hend : ['.', '.'].getLast? = some c := by rw [he, List.getLast?_append, hc]; rfl
    exact hdot (Option.some.inj hend).symm

theorem depth?_enter_append (depth : Nat) (base path : List Char) :
    depth? depth (segments (enter base ++ path)) =
      (depth? depth (segments base)).bind fun d => depth? d (segments path) := by
  obtain ⟨front, hbase, -, happend⟩ := segments_enter_append base path
  rw [happend, depth?_append]
  rcases hbase with hbase | hbase
  · rw [hbase]
  · rw [hbase, depth?_append]
    cases depth? depth front <;> simp [depth?]

/-! ### Below a directory -/

/-- A path is written as a directory joined with a relative path, and that one never
climbs above where it begins. -/
def Below (base path : String) : Prop :=
  ∃ rest, isAbsolute rest = false ∧ path = join base rest ∧
    (depth? 0 (segments rest.toList)).isSome = true

theorem Below.begins {base path : String} (h : Below base path) :
    enter base.toList <+: path.toList := by
  obtain ⟨rest, hrest, rfl, -⟩ := h
  rw [toList_join base hrest]
  exact List.prefix_append _ _

theorem Below.trans {top base path : String} (h : Below top base) (h' : Below base path) :
    Below top path := by
  obtain ⟨rest, hrest, rfl, hstays⟩ := h
  obtain ⟨rest', hrest', rfl, hstays'⟩ := h'
  refine ⟨join rest rest', (isAbsolute_join rest hrest').trans hrest,
    join_join top hrest hrest', ?_⟩
  obtain ⟨d, hd⟩ := Option.isSome_iff_exists.1 hstays
  obtain ⟨d', hd'⟩ := Option.isSome_iff_exists.1 hstays'
  rw [toList_join rest hrest', depth?_enter_append, hd, Option.bind_some]
  simpa using congrArg Option.isSome (depth?_add d hd')

/-- What is joined to a directory stands below it, if it is relative and has no segment of
two dots. -/
theorem below_of_no_parent {path : String} (base : String) (h : isAbsolute path = false)
    (hdots : ['.', '.'] ∉ segments path.toList) : Below base (join base path) :=
  ⟨path, h, rfl, isSome_depth? hdots 0⟩

end Path

/-! ### Following -/

namespace FileTree

variable {tree : FileTree} {current place place' : Place} {path : String}

theorem followAll_append (place : Place) (ss ts : List String) :
    tree.followAll place (ss ++ ts) =
      (tree.followAll place ss).bind fun place => tree.followAll place ts := by
  induction ss generalizing place with
  | nil => rfl
  | cons s ss ih =>
    simp only [List.cons_append, followAll, bind, Except.bind]
    cases tree.step place s with
    | error e => rfl
    | ok place => exact ih place

/-- A segment that stays does nothing, if others follow: each of them asks for a directory. -/
theorem followAll_stay_append {s : String} (hs : s = "" ∨ s = ".") {ts : List String}
    (hts : ts ≠ []) (place : Place) :
    tree.followAll place (s :: ts) = tree.followAll place ts := by
  obtain ⟨t, ts, rfl⟩ := List.exists_cons_of_ne_nil hts
  cases hd : tree.isDirectoryAt place <;>
    simp [followAll, step, hd, hs, bind, Except.bind]

theorem stepsFrom_join (current : Place) (base : String) (h : Path.isAbsolute path = false) :
    ∃ before, ((stepsFrom current base).2 = before ∨ (stepsFrom current base).2 = before ++ [""]) ∧
      stepsFrom current (Path.join base path) =
        ((stepsFrom current base).1, before ++ Path.parts path) := by
  obtain ⟨front, hbase, hne, happend⟩ := Path.segments_enter_append base.toList path.toList
  have hparts : Path.parts (Path.join base path) =
      front.map String.ofList ++ Path.parts path := by
    rw [Path.parts, Path.toList_join base h, happend, List.map_append, Path.parts]
  have hfront : Path.parts base = front.map String.ofList ∨
      Path.parts base = front.map String.ofList ++ [""] := by
    rcases hbase with hbase | hbase <;> simp [Path.parts, hbase]
  cases habs : Path.isAbsolute base with
  | false =>
    exact ⟨front.map String.ofList, by simpa [stepsFrom, habs] using hfront,
      by simp [stepsFrom, habs, Path.isAbsolute_join base h, hparts]⟩
  | true =>
    -- an absolute path begins with an empty segment, which is no step
    obtain ⟨s, ss, rfl⟩ := List.exists_cons_of_ne_nil (hne fun hnil => by
      simp [Path.isAbsolute, hnil] at habs)
    refine ⟨ss.map String.ofList, ?_, ?_⟩
    · rcases hfront with hfront | hfront <;> simp [stepsFrom, habs, hfront]
    · simp [stepsFrom, habs, Path.isAbsolute_join base h, hparts]

/-- The steps of a path in a directory are taken behind those of the directory. -/
theorem followAll_steps_join (base : String) (h : Path.isAbsolute path = false) :
    tree.followAll (stepsFrom current (Path.join base path)).1
        (stepsFrom current (Path.join base path)).2 =
      (tree.followAll (stepsFrom current base).1 (stepsFrom current base).2).bind
        fun place => tree.followAll place (Path.parts path) := by
  obtain ⟨before, hbase, hjoin⟩ := stepsFrom_join current base h
  have hpath : Path.parts path ≠ [] := by simp [Path.parts, Text.segments_ne_nil]
  have hstay (place : Place) : tree.followAll place ([""] ++ Path.parts path) =
      tree.followAll place (Path.parts path) := followAll_stay_append (.inl rfl) hpath place
  rw [hjoin]
  rcases hbase with hbase | hbase
  · rw [hbase, followAll_append]
  · rw [hbase, ← followAll_append, List.append_assoc, followAll_append, followAll_append]
    simp only [hstay]

theorem step_ok {s : String} (h : tree.step place s = .ok place') :
    ((s = "" ∨ s = ".") ∧ place' = place) ∨ (s = ".." ∧ place' = place.dropLast) ∨
      (s ≠ "" ∧ s ≠ "." ∧ s ≠ ".." ∧ place' = place ++ [s]) := by
  unfold step at h
  split at h
  · cases h
  · split at h
    · next hstay => exact .inl ⟨hstay, (Except.ok.inj h).symm⟩
    · next hstay =>
      obtain ⟨hempty, hdot⟩ := not_or.1 hstay
      split at h
      · next hclimb => exact .inr (.inl ⟨hclimb, (Except.ok.inj h).symm⟩)
      · next hclimb =>
        split at h
        · cases h
        · split at h
          · exact .inr (.inr ⟨hempty, hdot, hclimb, (Except.ok.inj h).symm⟩)
          · cases h

/-- What does not climb above a place leads to that place or below it. -/
theorem followAll_below {top : Place} (below : Place) {d : Nat} {ss : List (List Char)}
    (hd : Path.depth? below.length ss = some d)
    (h : tree.followAll (top ++ below) (ss.map String.ofList) = .ok place) : top <+: place := by
  -- the depth counts the names below `top` that two dots may still take away
  induction ss generalizing below with
  | nil =>
    obtain rfl := Except.ok.inj h
    exact List.prefix_append top below
  | cons s ss ih =>
    simp only [List.map_cons, followAll, bind, Except.bind] at h
    cases hstep : tree.step (top ++ below) (String.ofList s) with
    | error e => simp [hstep] at h
    | ok next =>
      rw [hstep] at h
      rcases step_ok hstep with ⟨hs, rfl⟩ | ⟨hs, rfl⟩ | ⟨hempty, hdot, hclimb, rfl⟩
      · have hs' : s = [] ∨ s = ['.'] := by simpa [← String.toList_inj] using hs
        exact ih _ (by simpa [Path.depth?, hs'] using hd) h
      · obtain rfl : s = ['.', '.'] := by simpa [← String.toList_inj] using hs
        rcases List.eq_nil_or_concat' below with rfl | ⟨below, name, rfl⟩
        · simp [Path.depth?] at hd
        · refine ih below (by simpa [Path.depth?] using hd) ?_
          simpa [← List.append_assoc] using h
      · have hs : ¬(s = [] ∨ s = ['.']) ∧ s ≠ ['.', '.'] := by
          simpa [← String.toList_inj] using And.intro (And.intro hempty hdot) hclimb
        refine ih (below ++ [String.ofList s]) ?_ (by simpa using h)
        simpa [Path.depth?, hs.1, hs.2] using hd

/-- An absolute path is the same from everywhere. -/
theorem find?_of_isAbsolute {current' : Place} (h : Path.isAbsolute path = true) :
    tree.find? current path = tree.find? current' path := by
  simp only [find?, follow, stepsFrom, h, if_true]

theorem follow_of_find? {t : FileTree} (h : tree.find? current path = some t) :
    ∃ place, tree.follow current path = .ok place ∧ tree.at? place = some t := by
  unfold find? at h
  split at h
  · next place hfollow => exact ⟨place, hfollow, h⟩
  · cases h

theorem follow_of_isFile (h : tree.isFile current path = true) :
    ∃ place, tree.follow current path = .ok place := by
  unfold isFile at h
  split at h
  · next found => exact (follow_of_find? found).imp fun _ => And.left
  · cases h

theorem follow_of_isDirectory (h : tree.isDirectory current path = true) :
    ∃ place, tree.follow current path = .ok place := by
  unfold isDirectory at h
  split at h
  · next found => exact (follow_of_find? found).imp fun _ => And.left
  · cases h

/-- A path that leads somewhere says something, is not too long, and can be followed. -/
theorem follow_eq_ok_iff : tree.follow current path = .ok place ↔
    path ≠ "" ∧ '\x00' ∉ path.toList ∧ path.utf8ByteSize < pathLimit ∧
      tree.followAll (stepsFrom current path).1 (stepsFrom current path).2 = .ok place := by
  unfold follow
  simp only [String.isEmpty_iff, List.contains_eq_mem, decide_eq_true_eq]
  split
  · simp_all
  · split
    · simp_all
    · split
      · next hsize => simp [Nat.not_lt.2 hsize]
      · next hsize => simp_all

theorem follow_ok (h : tree.follow current path = .ok place) :
    tree.followAll (stepsFrom current path).1 (stepsFrom current path).2 = .ok place :=
  (follow_eq_ok_iff.1 h).2.2.2

end FileTree

/-- **What lies below a directory is found below it:** a path below a directory that leads
to some place leads there through the place of the directory, in whatever tree. -/
theorem Path.Below.follow {base path : String} (h : Path.Below base path) {tree : FileTree}
    {current place : Place} (hfollow : tree.follow current path = .ok place) :
    ∃ top, tree.followAll (FileTree.stepsFrom current base).1
      (FileTree.stepsFrom current base).2 = .ok top ∧ top <+: place := by
  obtain ⟨rest, hrest, rfl, hstays⟩ := h
  obtain ⟨d, hd⟩ := Option.isSome_iff_exists.1 hstays
  have hall := FileTree.follow_ok hfollow
  rw [FileTree.followAll_steps_join base hrest] at hall
  cases htop : tree.followAll (FileTree.stepsFrom current base).1
      (FileTree.stepsFrom current base).2 with
  | error e => simp [htop, Except.bind] at hall
  | ok top =>
    rw [htop] at hall
    exact ⟨top, rfl, FileTree.followAll_below [] hd
      (by simpa [Path.parts, Except.bind] using hall)⟩

end ModuleGraph
