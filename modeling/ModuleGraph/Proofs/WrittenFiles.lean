/-
# Files that are written

What is written at the end of a path is found there (`FileTree.find?_write`). A file comes to
stand where no directory stood, so every directory stays one, and the steps that led to the
directory of the file lead there afterwards (`FileTree.followAll_put`).

Key theorems: `FileTree.at?_put`, `FileTree.followAll_put`, `FileTree.find?_write`.
-/
import ModuleGraph.Proofs.Manifests

namespace ModuleGraph.FileTree

open Text

variable {tree tree' : FileTree} {current dir place place' : Place} {path name : String}
  {content : Option String}

/-! ### Putting a file -/

/-- A file that is put into a directory, where no directory has its name. -/
theorem at?_put_name {entries : List (String × FileTree)}
    (hname : (directory entries).isDirectoryAt [name] = false) (content : Option String)
    (place : Place) :
    (((directory entries).put [name] (file content)).at? place).map face =
      if place = [name] then some (some content) else ((directory entries).at? place).map face := by
  cases place with
  | nil => cases hget : Table.get? entries name <;> simp [put, hget, at?, face]
  | cons key place =>
    by_cases hkey : key = name
    · subst hkey
      have hput : ((directory entries).put [key] (file content)).child? key =
          some (file content) := by
        cases hget : Table.get? entries key <;> simp [put, hget, child?, Table.get?_put]
      cases place with
      | nil => simp [at?, hput, face]
      | cons below place =>
        -- below a file there is nothing, before or after
        have hbelow : (directory entries).at? (key :: below :: place) = none := by
          cases hget : Table.get? entries key with
          | none => simp [at?, child?, hget]
          | some t =>
            cases t with
            | file text => simp [at?, child?, hget]
            | directory inner => simp [isDirectoryAt, at?, child?, hget] at hname
        have hfile : child? below (file content) = none := rfl
        rw [hbelow]
        simp [at?, hput, hfile]
    · cases hget : Table.get? entries name <;>
        simp [put, hget, at?, child?, Table.get?_put, hkey, Ne.symm hkey]

/-- **A file that is put stands at its place, and all else looks as before.** -/
theorem at?_put (hdir : tree.isDirectoryAt dir = true)
    (hname : tree.isDirectoryAt (dir ++ [name]) = false) (content : Option String) (place : Place) :
    ((tree.put (dir ++ [name]) (file content)).at? place).map face =
      if place = dir ++ [name] then some (some content) else (tree.at? place).map face := by
  induction dir generalizing tree place with
  | nil =>
    cases tree with
    | file text => cases hdir
    | directory entries => exact at?_put_name hname content place
  | cons key dir ih =>
    cases tree with
    | file text => cases hdir
    | directory entries =>
      cases hget : Table.get? entries key with
      | none => simp [isDirectoryAt, at?, child?, hget] at hdir
      | some t =>
        have hdir' : t.isDirectoryAt dir = true := by
          simpa [isDirectoryAt, at?, child?, hget] using hdir
        have hname' : t.isDirectoryAt (dir ++ [name]) = false := by
          simpa [isDirectoryAt, at?, child?, hget] using hname
        cases place with
        | nil => simp [put, hget, at?, face]
        | cons key' place =>
          by_cases hkey : key' = key
          · subst hkey
            simpa [put, hget, at?, child?, Table.get?_put] using ih hdir' hname' place
          · simp [put, hget, at?, child?, Table.get?_put, hkey, Ne.symm hkey]

theorem at?_put_self (hdir : tree.isDirectoryAt dir = true)
    (hname : tree.isDirectoryAt (dir ++ [name]) = false) (content : Option String) :
    (tree.put (dir ++ [name]) (file content)).at? (dir ++ [name]) = some (file content) := by
  have hput := at?_put hdir hname content (dir ++ [name])
  rw [if_pos rfl] at hput
  obtain ⟨t, ht, hface⟩ := Option.map_eq_some_iff.1 hput
  cases t with
  | file text => rw [ht, Option.some.inj hface]
  | directory entries => cases hface

theorem isDirectoryAt_put (hdir : tree.isDirectoryAt dir = true)
    (hname : tree.isDirectoryAt (dir ++ [name]) = false) (place : Place) :
    (tree.put (dir ++ [name]) (file content)).isDirectoryAt place = tree.isDirectoryAt place := by
  rw [isDirectoryAt_eq, isDirectoryAt_eq, at?_put hdir hname]
  by_cases hplace : place = dir ++ [name]
  · rw [isDirectoryAt_eq, decide_eq_false_iff_not] at hname
    simp [hplace, hname]
  · simp [hplace]

theorem isSome_at?_put (hdir : tree.isDirectoryAt dir = true)
    (hname : tree.isDirectoryAt (dir ++ [name]) = false) (h : (tree.at? place).isSome = true) :
    ((tree.put (dir ++ [name]) (file content)).at? place).isSome = true := by
  rw [← Option.isSome_map (f := face), at?_put hdir hname]
  split
  · rfl
  · simpa using h

/-- A step leads where it led before. -/
theorem step_put (hdir : tree.isDirectoryAt dir = true)
    (hname : tree.isDirectoryAt (dir ++ [name]) = false) {s : String}
    (h : tree.step place s = .ok place') :
    (tree.put (dir ++ [name]) (file content)).step place s = .ok place' := by
  unfold step at h ⊢
  rw [isDirectoryAt_put hdir hname]
  split at h
  · cases h
  split at h
  · simp [*]
  split at h
  · simp [*]
  split at h
  · cases h
  split at h
  · next hsome => simp [*, isSome_at?_put hdir hname hsome]
  · cases h

theorem followAll_put (hdir : tree.isDirectoryAt dir = true)
    (hname : tree.isDirectoryAt (dir ++ [name]) = false) {ss : List String}
    (h : tree.followAll place ss = .ok place') :
    (tree.put (dir ++ [name]) (file content)).followAll place ss = .ok place' := by
  induction ss generalizing place with
  | nil => exact h
  | cons s ss ih =>
    cases hstep : tree.step place s with
    | error e => simp [followAll, hstep, bind, Except.bind] at h
    | ok next =>
      have hrest : tree.followAll next ss = .ok place' := by
        simpa [followAll, hstep, bind, Except.bind] using h
      simpa [followAll, step_put hdir hname hstep, bind, Except.bind] using ih hrest

/-! ### Writing -/

/-- A text that does not end with a slash has something behind the last. -/
theorem exists_last_segment_of_ne {c : Char} (hc : c ≠ '/') (cs : List Char) :
    ∃ front last, segments (cs ++ [c]) = front ++ [last ++ [c]] := by
  induction cs with
  | nil => exact ⟨[], [], by simp [segments, hc]⟩
  | cons d cs ih =>
    obtain ⟨front, last, hsegments⟩ := ih
    by_cases hd : d = '/'
    · exact ⟨[] :: front, last, by simp [segments, hd, hsegments]⟩
    · cases front with
      | nil => exact ⟨[], d :: last, by simp [segments, hd, hsegments]⟩
      | cons s front => exact ⟨(d :: s) :: front, last, by simp [segments, hd, hsegments]⟩

/-- A path that does not end with a slash has a last step of its own. -/
theorem exists_last_name (hne : path ≠ "") (hslash : Path.endsWithSlash path = false)
    (current : Place) :
    ∃ front last, (stepsFrom current path).2 = front ++ [last] ∧ last ≠ "" := by
  have hpath : path.toList ≠ [] := fun he => hne (String.toList_inj.1 he)
  obtain ⟨cs, c, hcs⟩ : ∃ cs c, path.toList = cs ++ [c] :=
    ⟨_, _, (List.dropLast_append_getLast hpath).symm⟩
  have hc : c ≠ '/' := by simpa [Path.endsWithSlash, hcs] using hslash
  unfold stepsFrom
  split
  · next habs =>
    obtain ⟨rest, hrest⟩ : ∃ rest, path.toList = '/' :: rest :=
      ⟨_, List.eq_cons_of_mem_head? ((Path.isAbsolute_iff path).1 habs)⟩
    cases cs with
    | nil =>
      rw [hrest] at hcs
      exact absurd (List.cons.inj hcs).1.symm hc
    | cons d cs =>
      obtain ⟨front, last, hsegments⟩ := exists_last_segment_of_ne hc cs
      have hparts : path.toList = '/' :: (cs ++ [c]) := by
        rw [hrest] at hcs
        rw [hrest, (List.cons.inj hcs).2]
        rfl
      refine ⟨front.map String.ofList, String.ofList (last ++ [c]), ?_, ?_⟩
      · simp [Path.parts, hparts, segments, hsegments]
      · simp [← String.toList_inj]
  · obtain ⟨front, last, hsegments⟩ := exists_last_segment_of_ne hc cs
    refine ⟨front.map String.ofList, String.ofList (last ++ [c]), ?_, ?_⟩
    · simp [Path.parts, hcs, hsegments]
    · simp [← String.toList_inj]

/-- The last step of a path that does not end with a slash is taken in the directory that the
steps before it lead to. -/
theorem of_followToLast (hslash : Path.endsWithSlash path = false)
    (h : tree.followToLast current path = .ok (dir, name)) :
    (path ≠ "" ∧ '\x00' ∉ path.toList ∧ path.utf8ByteSize < pathLimit) ∧
      (∃ front, (stepsFrom current path).2 = front ++ [name] ∧
        tree.followAll (stepsFrom current path).1 front = .ok dir) ∧
      tree.isDirectoryAt dir = true ∧ name ≠ "" ∧ name.utf8ByteSize ≤ nameLimit := by
  unfold followToLast at h
  split at h
  · cases h
  next hempty =>
  split at h
  · cases h
  next hnul =>
  split at h
  · cases h
  next hsize =>
  have hne : path ≠ "" := by simpa [String.isEmpty_iff] using hempty
  obtain ⟨front, last, hsteps, hlast⟩ := exists_last_name hne hslash current
  have htrimmed : (((front ++ [last]).reverse.dropWhile (· == "")).reverse) = front ++ [last] := by
    simp [hlast]
  simp only [hsteps, htrimmed, List.getLast?_append, List.getLast?_singleton, Option.some_or,
    List.dropLast_concat] at h
  cases hfront : tree.followAll (stepsFrom current path).1 front with
  | error e => simp [hfront, bind, Except.bind] at h
  | ok place =>
    simp only [hfront, bind, Except.bind] at h
    split at h
    · cases h
    next hdir =>
    split at h
    · cases h
    next hlimit =>
    obtain ⟨rfl, rfl⟩ := Prod.mk.inj (Except.ok.inj h)
    exact ⟨⟨hne, by simpa using hnul, Nat.lt_of_not_le hsize⟩, ⟨front, hsteps, hfront⟩,
      by simpa using hdir, hlast, Nat.le_of_not_lt hlimit⟩

/-- **What is written is found:** at the end of its path there is the file. -/
theorem find?_write (h : tree.write current path content = .ok tree') :
    tree'.find? current path = some (file content) := by
  unfold write at h
  cases hlast : tree.followToLast current path with
  | error e => simp [hlast, bind, Except.bind] at h
  | ok reached =>
    obtain ⟨dir, name⟩ := reached
    simp only [hlast, bind, Except.bind] at h
    split at h
    · cases h
    next hfree =>
    obtain rfl := Except.ok.inj h
    simp only [Bool.or_eq_true, not_or, Bool.not_eq_true] at hfree
    obtain ⟨⟨hslash, hdots⟩, hname⟩ := hfree
    obtain ⟨⟨hne, hnul, hsize⟩, ⟨front, hsteps, hfront⟩, hdir, hempty, hlimit⟩ :=
      of_followToLast hslash hlast
    have hfile := at?_put_self hdir hname content
    have hstep : (tree.put (dir ++ [name]) (file content)).step dir name = .ok (dir ++ [name]) := by
      simp only [isDots, Bool.or_eq_false_iff, beq_eq_false_iff_ne] at hdots
      unfold step
      rw [isDirectoryAt_put hdir hname, hfile]
      simp [hdir, hempty, hdots, Nat.not_lt.2 hlimit]
    have hfollow : (tree.put (dir ++ [name]) (file content)).follow current path =
        .ok (dir ++ [name]) := by
      refine follow_eq_ok_iff.2 ⟨hne, hnul, hsize, ?_⟩
      rw [hsteps, followAll_append, followAll_put hdir hname hfront, Except.bind,
        followAll_singleton, hstep]
    rw [find?, hfollow]
    exact hfile

end ModuleGraph.FileTree
