/-
# Where a path leads from a file

A path is resolved against the identifier of a file by going through its segments from
the directory of the file. Whatever that directory is, the path comes to a route: it
climbs so many directories, and then goes down by names of its own (`Route`,
`foldl_step`). All that is said here about resolution is said of routes first.

The root of the identifier stays in place, and below it stand what is left of the
directory and the names of the route (`resolve_below_root`). What is resolved has a root
and a directory in turn, so resolution goes on from it as it would have from the
directory that the path ends in (`resolve_resolve`). Two spellings of one route lead to
the same place from every file (`resolve_eq_of_route`, `resolve_collapse`).

Key definitions: `descend`, `IsName`, `Route`, `Route.place`, `Specifier.above`.
Key theorems: `foldl_step`, `mem_foldl_step`, `resolve_below_root`, `resolve_resolve`,
`resolve_collapse`.
-/
import Mathlib.Data.List.DropRight
import Mathlib.Data.List.Infix
import ModuleGraph.Specifier

namespace ModuleGraph

open Text Specifier

/-! ### Roots -/

/-- Segments, each behind a slash. -/
def descend (ss : List (List Char)) : List Char := ss.flatMap ('/' :: ·)

@[simp] theorem descend_nil : descend [] = [] := rfl

@[simp] theorem descend_append (ss ts : List (List Char)) :
    descend (ss ++ ts) = descend ss ++ descend ts := List.flatMap_append ..

@[simp] theorem descend_cons (s : List Char) (ss : List (List Char)) :
    descend (s :: ss) = '/' :: (s ++ descend ss) := by simp [descend]

theorem joinSegments_eq_descend : ∀ (s : List Char) (ss : List (List Char)),
    joinSegments (s :: ss) = s ++ descend ss
  | s, [] => by simp [joinSegments]
  | s, t :: ss => by
    rw [joinSegments_cons s (List.cons_ne_nil t ss), joinSegments_eq_descend t ss, descend_cons]

theorem segments_append_descend (path : List Char) {ss : List (List Char)}
    (h : ∀ s ∈ ss, '/' ∉ s) : segments (path ++ descend ss) = segments path ++ ss := by
  induction ss generalizing path with
  | nil => simp
  | cons s ss ih =>
    have hs : segments s = [s] := segments_of_no_slash (h s List.mem_cons_self)
    rw [descend_cons, segments_append_cons_slash, ih s fun t ht => h t (List.mem_cons_of_mem _ ht),
      hs, List.singleton_append]

theorem rootLength_eq (path : List Char) :
    rootLength path = if path.head? = some '@' then 2 else 1 := by
  cases path with
  | nil => rfl
  | cons c cs =>
    unfold rootLength
    split <;> simp_all

theorem rootLength_pos (path : List Char) : 0 < rootLength path := by
  rw [rootLength_eq]
  split <;> decide

theorem segments_root (path : List Char) :
    segments (root path) = (segments path).take (rootLength path) := by
  have hne : (segments path).take (rootLength path) ≠ [] := by
    simp [segments_ne_nil, (rootLength_pos path).ne']
  exact segments_joinSegments hne fun s hs => no_slash_of_mem_segments (List.mem_of_mem_take hs)

/-- A path is its root with the other segments. -/
theorem root_append_descend (path : List Char) :
    root path ++ descend ((segments path).drop (rootLength path)) = path := by
  obtain ⟨n, hn⟩ := Nat.exists_eq_succ_of_ne_zero (rootLength_pos path).ne'
  obtain ⟨s, ss, hs⟩ := List.exists_cons_of_ne_nil (segments_ne_nil path)
  conv_rhs => rw [← joinSegments_segments path, hs, joinSegments_eq_descend]
  rw [root, hn, hs, List.take_succ_cons, List.drop_succ_cons, joinSegments_eq_descend,
    List.append_assoc, ← descend_append, List.take_append_drop]

theorem root_of_head {path : List Char} (h : path.head? = some '/') : root path = [] := by
  obtain ⟨rest, rfl⟩ : ∃ rest, path = '/' :: rest := ⟨_, List.eq_cons_of_mem_head? h⟩
  simp [root, rootLength_eq, segments, joinSegments]

/-- What stands below a root does not make it a scoped one, nor the other way round. -/
theorem rootLength_root_append (path : List Char) (ss : List (List Char)) :
    rootLength (root path ++ descend ss) = rootLength path := by
  have hhead (ts : List (List Char)) :
      (root path ++ descend ts).head? = some '@' ↔ (root path).head? = some '@' := by
    cases root path with
    | nil => cases ts <;> simp
    | cons c cs => simp
  have hpath := hhead ((segments path).drop (rootLength path))
  rw [root_append_descend] at hpath
  rw [rootLength_eq, rootLength_eq path]
  simp only [hhead, hpath]

/-- An identifier has the segments of its root, if it is not a scope alone. -/
theorem rootLength_le_length {path : List Char} (h : path.head? = some '@' → '/' ∈ path) :
    rootLength path ≤ (segments path).length := by
  rw [rootLength_eq]
  split
  · next hscoped =>
    obtain ⟨scope, rest, rfl⟩ := List.append_of_mem (h hscoped)
    have hscope := List.length_pos_of_ne_nil (segments_ne_nil scope)
    have hrest := List.length_pos_of_ne_nil (segments_ne_nil rest)
    rw [segments_append_cons_slash, List.length_append]
    omega
  · exact List.length_pos_of_ne_nil (segments_ne_nil path)

section

variable {base : List Char} {ss : List (List Char)}

theorem segments_root_append (hss : ∀ s ∈ ss, '/' ∉ s) :
    segments (root base ++ descend ss) = (segments base).take (rootLength base) ++ ss := by
  rw [segments_append_descend _ hss, segments_root]

/-- What stands below the root of an identifier has that root. -/
theorem root_root_append (hbase : base.head? = some '@' → '/' ∈ base)
    (hss : ∀ s ∈ ss, '/' ∉ s) : root (root base ++ descend ss) = root base := by
  have hlen : ((segments base).take (rootLength base)).length = rootLength base := by
    rw [List.length_take, Nat.min_eq_left (rootLength_le_length hbase)]
  rw [root, rootLength_root_append, segments_root_append hss, List.take_left' hlen, root]

/-- The directory is what stands below the root, without the last segment. -/
theorem directory_root_append (hbase : base.head? = some '@' → '/' ∈ base)
    (hss : ∀ s ∈ ss, '/' ∉ s) : directory (root base ++ descend ss) = ss.dropLast := by
  have hlen : ((segments base).take (rootLength base)).length = rootLength base := by
    rw [List.length_take, Nat.min_eq_left (rootLength_le_length hbase)]
  rw [directory, rootLength_root_append, segments_root_append hss, List.drop_left' hlen]

theorem no_slash_of_mem_directory {s : List Char} (h : s ∈ directory base) : '/' ∉ s :=
  no_slash_of_mem_segments (List.mem_of_mem_drop (List.mem_of_mem_dropLast h))

end

/-! ### Routes -/

/-- A segment that a path goes down by; a dot stays and two dots climb. -/
def IsName (s : List Char) : Prop := s ≠ ['.'] ∧ s ≠ ['.', '.']

instance (s : List Char) : Decidable (IsName s) := inferInstanceAs (Decidable (_ ∧ _))

theorem step_of_isName {s : List Char} (h : IsName s) (place : List (List Char)) :
    Specifier.step place s = place ++ [s] := by
  rw [Specifier.step, if_neg h.1, if_neg h.2]

/-- What a path comes to wherever it begins: it climbs so often and then goes down by
names. -/
structure Route where
  climbs : Nat
  names : List (List Char)
  deriving DecidableEq, Repr

namespace Route

/-- A route with one segment more. Two dots take a name back before they climb. -/
def step (route : Route) (segment : List Char) : Route :=
  if segment = ['.'] then route
  else if segment = ['.', '.'] then
    if route.names = [] then { route with climbs := route.climbs + 1 }
    else { route with names := route.names.dropLast }
  else { route with names := route.names ++ [segment] }

/-- The route of a path. -/
def of (ss : List (List Char)) : Route := ss.foldl step ⟨0, []⟩

/-- Where a route leads from a directory. It climbs no further than there is something to
climb out of. -/
def place (route : Route) (dir : List (List Char)) : List (List Char) :=
  dir.rdrop route.climbs ++ route.names

variable {route : Route} {ss : List (List Char)}

theorem of_concat (ss : List (List Char)) (s : List Char) : of (ss ++ [s]) = (of ss).step s := by
  simp [of]

theorem step_dot (route : Route) : route.step ['.'] = route := rfl

/-- A name that is taken back leaves nothing. -/
theorem step_step_dots {s : List Char} (hs : IsName s) (route : Route) :
    (route.step s).step ['.', '.'] = route := by
  simp [step, hs.1, hs.2]

theorem place_step (route : Route) (dir : List (List Char)) (s : List Char) :
    (route.step s).place dir = Specifier.step (route.place dir) s := by
  unfold step Specifier.step
  split
  · rfl
  · split
    · by_cases hnames : route.names = []
      · have hlast (ts : List (List Char)) : ts.dropLast = ts.rdrop 1 := List.dropLast_eq_take
        simp [place, hnames, hlast, List.rdrop_add]
      · simp [place, hnames, List.dropLast_append_of_ne_nil hnames]
    · simp [place]

theorem place_eq_nil_iff {dir : List (List Char)} :
    route.place dir = [] ↔ dir.length ≤ route.climbs ∧ route.names = [] := by
  simp only [place, List.rdrop, List.append_eq_nil_iff, List.take_eq_nil_iff]
  refine and_congr_left fun _ => ⟨?_, fun h => .inl (Nat.sub_eq_zero_of_le h)⟩
  rintro (h | rfl)
  · exact Nat.le_of_sub_eq_zero h
  · exact Nat.zero_le _

theorem names_sublist (ss : List (List Char)) : (of ss).names.Sublist ss := by
  induction ss using List.reverseRecOn with
  | nil => exact List.Sublist.refl _
  | append_singleton ss s ih =>
    have hss : (of ss).names.Sublist (ss ++ [s]) := ih.trans (List.sublist_append_left _ _)
    rw [of_concat]
    unfold step
    split
    · exact hss
    · split
      · split
        · exact hss
        · exact (List.dropLast_sublist _).trans hss
      · exact ih.append (List.Sublist.refl [s])

theorem isName_of_mem_names {s : List Char} (h : s ∈ (of ss).names) : IsName s := by
  induction ss using List.reverseRecOn with
  | nil => simp [of] at h
  | append_singleton ss t ih =>
    rw [of_concat] at h
    unfold step at h
    split at h
    · exact ih h
    · next hdot =>
      split at h
      · split at h
        · exact ih h
        · exact ih (List.mem_of_mem_dropLast h)
      · next hdots =>
        rcases List.mem_append.1 h with h | h
        · exact ih h
        · obtain rfl := List.mem_singleton.1 h
          exact ⟨hdot, hdots⟩

end Route

/-- **A path is followed by its route,** from every directory. -/
theorem foldl_step (dir ss : List (List Char)) :
    ss.foldl Specifier.step dir = (Route.of ss).place dir := by
  induction ss using List.reverseRecOn with
  | nil => simp [Route.of, Route.place]
  | append_singleton ss s ih =>
    rw [List.foldl_append, List.foldl_cons, List.foldl_nil, ih, Route.of_concat, Route.place_step]

/-- A place is made of segments of the directory and of names in the path. -/
theorem mem_foldl_step {dir ss : List (List Char)} {s : List Char}
    (h : s ∈ ss.foldl Specifier.step dir) : s ∈ dir ∨ s ∈ ss ∧ IsName s := by
  rw [foldl_step, Route.place, List.mem_append] at h
  exact h.imp List.mem_of_mem_take fun hname =>
    ⟨(Route.names_sublist ss).subset hname, Route.isName_of_mem_names hname⟩

theorem no_slash_of_mem_foldl {base : List Char} {ss : List (List Char)}
    (hss : ∀ s ∈ ss, '/' ∉ s) : ∀ s ∈ ss.foldl Specifier.step (directory base), '/' ∉ s :=
  fun s hs => (mem_foldl_step hs).elim no_slash_of_mem_directory fun h => hss s h.1

/-! ### Resolution -/

theorem resolvePath_of_head {base path : List Char} (h : path.head? = some '/') :
    resolvePath base path = root base ++ path := by
  obtain ⟨rest, rfl⟩ : ∃ rest, path = '/' :: rest := ⟨_, List.eq_cons_of_mem_head? h⟩
  rfl

theorem resolvePath_of_head_ne {base path : List Char} (h : path.head? ≠ some '/') :
    resolvePath base path =
      root base ++ descend ((segments path).foldl Specifier.step (directory base)) := by
  unfold resolvePath
  split
  · exact absurd rfl h
  · rfl

/-- A path that ends in a name leads to a file of the same root, in the directory that the
path comes to before the name. -/
theorem root_directory_resolvePath {base path name : List Char} {front : List (List Char)}
    (hbase : base.head? = some '@' → '/' ∈ base) (hpath : path.head? ≠ some '/')
    (hsegments : segments path = front ++ [name]) (hname : IsName name) :
    root (resolvePath base path) = root base ∧
      directory (resolvePath base path) = front.foldl Specifier.step (directory base) := by
  have hplace : (segments path).foldl Specifier.step (directory base) =
      front.foldl Specifier.step (directory base) ++ [name] := by
    rw [hsegments, List.foldl_append, List.foldl_cons, List.foldl_nil, step_of_isName hname]
  have hslash : ∀ s ∈ (segments path).foldl Specifier.step (directory base), '/' ∉ s :=
    no_slash_of_mem_foldl fun s => no_slash_of_mem_segments
  rw [resolvePath_of_head_ne hpath]
  refine ⟨root_root_append hbase hslash, ?_⟩
  rw [directory_root_append hbase hslash, hplace, List.dropLast_concat]

/-- **The root of a file stays in place.** A path that does not begin at the root leads to
the root or to a place below it, however often it climbs: below the root stand the
directories of the file that it does not climb out of and names of its own. So there is no
dot and no two dots there, if there are none below the root of the file. -/
theorem resolve_below_root (base specifier : String) (h : specifier.toList.head? ≠ some '/') :
    ∃ n names, names.Sublist (segments specifier.toList) ∧ (∀ s ∈ names, IsName s) ∧
      (resolve base specifier).toList =
        root base.toList ++ descend ((directory base.toList).take n ++ names) ∧
      segments (resolve base specifier).toList =
        (segments base.toList).take (rootLength base.toList) ++
          ((directory base.toList).take n ++ names) ∧
      ((∀ s ∈ (segments base.toList).drop (rootLength base.toList), IsName s) →
        ∀ s ∈ (directory base.toList).take n ++ names, IsName s) := by
  set route := Route.of (segments specifier.toList)
  have hresolve : (resolve base specifier).toList =
      root base.toList ++ descend (route.place (directory base.toList)) := by
    rw [resolve, String.toList_ofList, resolvePath_of_head_ne h, foldl_step]
  have hslash : ∀ s ∈ route.place (directory base.toList), '/' ∉ s := by
    rw [← foldl_step]
    exact no_slash_of_mem_foldl fun s => no_slash_of_mem_segments
  refine ⟨_, route.names, Route.names_sublist _, fun s => Route.isName_of_mem_names, hresolve,
    ?_, fun hbase s hs => ?_⟩
  · rw [hresolve, segments_root_append hslash]
    rfl
  · rcases List.mem_append.1 hs with hs | hs
    · exact hbase s (List.mem_of_mem_dropLast (List.mem_of_mem_take hs))
    · exact Route.isName_of_mem_names hs

/-- A specifier that climbs out of more than there is. -/
theorem resolve_below_scope : ∃ below : List (List Char),
    (resolve "@scope/pkg/index" "../../../x").toList = "@scope/pkg".toList ++ descend below ∧
      segments (resolve "@scope/pkg/index" "../../../x").toList =
        ["@scope".toList, "pkg".toList] ++ below ∧
      ∀ s ∈ below, IsName s := by
  have hroot : root "@scope/pkg/index".toList = "@scope/pkg".toList := by decide
  have htake : (segments "@scope/pkg/index".toList).take (rootLength "@scope/pkg/index".toList) =
      ["@scope".toList, "pkg".toList] := by decide
  obtain ⟨n, names, -, -, hresolve, hsegments, hnames⟩ :=
    resolve_below_root "@scope/pkg/index" "../../../x" (by decide)
  rw [hroot] at hresolve
  rw [htake] at hsegments
  exact ⟨_, hresolve, hsegments, hnames (by decide)⟩

/-! ### Resolving twice -/

namespace Specifier

/-- The directory that a specifier names its file in: the specifier up to its last slash. -/
def above (specifier : String) : String :=
  String.ofList (specifier.toList.rdropWhile (· ≠ '/'))

end Specifier

/-- A path up to its last slash is cut apart from whatever stands behind it. -/
theorem segments_rdropWhile_append (path : List Char) : ∃ front, ∀ tail,
    segments (path.rdropWhile (· ≠ '/') ++ tail) = front ++ segments tail := by
  have hkept := List.rdropWhile_last_not (· ≠ '/') path
  generalize path.rdropWhile (· ≠ '/') = above at hkept ⊢
  by_cases hnil : above = []
  · exact ⟨[], by simp [hnil]⟩
  · have hlast : above.getLast hnil = '/' := by simpa using hkept hnil
    refine ⟨segments above.dropLast, fun tail => ?_⟩
    rw [← segments_append_cons_slash, ← hlast, ← List.singleton_append, ← List.append_assoc,
      List.dropLast_append_getLast hnil]

/-- The last segment of a path is what stands behind its last slash. -/
theorem segments_rtakeWhile (path : List Char) :
    segments (path.rtakeWhile (· ≠ '/')) = [path.rtakeWhile (· ≠ '/')] :=
  segments_of_no_slash fun h => by simpa using List.mem_rtakeWhile_imp h

theorem head?_above_append {s₁ s₂ : String} (h₁ : s₁.toList.head? ≠ some '/')
    (h₂ : s₂.toList.head? ≠ some '/') : (above s₁ ++ s₂).toList.head? ≠ some '/' := by
  have hsplit := List.rdropWhile_append_rtakeWhile (p := (· ≠ '/')) (l := s₁.toList)
  rw [String.toList_append, above, String.toList_ofList]
  cases habove : s₁.toList.rdropWhile (· ≠ '/') with
  | nil => simpa using h₂
  | cons c cs =>
    rw [habove] at hsplit
    rw [← hsplit] at h₁
    exact h₁

/-- **Resolving goes on from what has been resolved.** A specifier that ends in a name
leads to a file; what that file refers to is found from the first one too, by the directory
that the specifier names its file in. No climbing above the root on the way makes a
difference. -/
theorem resolve_resolve {base s₁ s₂ : String}
    (hbase : base.toList.head? = some '@' → '/' ∈ base.toList)
    (h₁ : s₁.toList.head? ≠ some '/') (h₂ : s₂.toList.head? ≠ some '/')
    (hlast : IsName ((segments s₁.toList).getLast (segments_ne_nil _))) :
    resolve (resolve base s₁) s₂ = resolve base (above s₁ ++ s₂) := by
  obtain ⟨front, hfront⟩ := segments_rdropWhile_append s₁.toList
  set name := s₁.toList.rtakeWhile (· ≠ '/')
  have hs₁ : segments s₁.toList = front ++ [name] := by
    rw [← segments_rtakeWhile, ← hfront, List.rdropWhile_append_rtakeWhile]
  have habove : segments (above s₁ ++ s₂).toList = front ++ segments s₂.toList := by
    rw [String.toList_append, above, String.toList_ofList, hfront]
  have hname : IsName name := by simpa [hs₁] using hlast
  obtain ⟨hroot, hdirectory⟩ := root_directory_resolvePath hbase h₁ hs₁ hname
  simp only [resolve, String.toList_ofList]
  rw [resolvePath_of_head_ne h₂, resolvePath_of_head_ne (head?_above_append h₁ h₂), hroot,
    hdirectory, habove, List.foldl_append]

/-- From a package to one of its files and back above its root. -/
theorem resolve_resolve_scope :
    resolve (resolve "@scope/pkg/index" "../../lib/a") "../../../b" =
      resolve "@scope/pkg/index" (above "../../lib/a" ++ "../../../b") :=
  resolve_resolve (by decide) (by decide) (by decide) (by decide)

/-- A scope alone takes the first name below it for its package, and keeps it. -/
example : resolve (resolve "@scope" "pkg/a") "../../b" = "@scope/pkg/b" ∧
    resolve "@scope" (above "pkg/a" ++ "../../b") = "@scope/b" := by decide

/-! ### Spellings -/

/-- Paths with one route lead to the same place, from whatever file. -/
theorem resolve_eq_of_route (base : String) {path path' : List Char}
    (h : path.head? ≠ some '/') (h' : path'.head? ≠ some '/')
    (hroute : Route.of (segments path) = Route.of (segments path')) :
    resolve base (String.ofList path) = resolve base (String.ofList path') := by
  simp only [resolve, String.toList_ofList]
  rw [resolvePath_of_head_ne h, resolvePath_of_head_ne h', foldl_step, foldl_step, hroute]

theorem Route.of_append_of_eq {p p' : List (List Char)} (q : List (List Char))
    (h : of p = of p') : of (p ++ q) = of (p' ++ q) := by
  unfold of at h ⊢
  rw [List.foldl_append, List.foldl_append, h]

/-- What a path begins with can be exchanged for something of the same route. -/
theorem resolve_join_eq_of_route (base : String) {p p' q : List (List Char)}
    (hslash : ∀ s ∈ p ++ p' ++ q, '/' ∉ s) (hne : p ++ q ≠ []) (hne' : p' ++ q ≠ [])
    (h : (joinSegments (p ++ q)).head? ≠ some '/')
    (h' : (joinSegments (p' ++ q)).head? ≠ some '/') (hroute : Route.of p = Route.of p') :
    resolve base (String.ofList (joinSegments (p ++ q))) =
      resolve base (String.ofList (joinSegments (p' ++ q))) := by
  simp only [List.mem_append, or_imp, forall_and] at hslash
  obtain ⟨⟨hp, hp'⟩, hq⟩ := hslash
  have hsegments : segments (joinSegments (p ++ q)) = p ++ q :=
    segments_joinSegments hne fun s hs => (List.mem_append.1 hs).elim (hp s) (hq s)
  have hsegments' : segments (joinSegments (p' ++ q)) = p' ++ q :=
    segments_joinSegments hne' fun s hs => (List.mem_append.1 hs).elim (hp' s) (hq s)
  refine resolve_eq_of_route base h h' ?_
  rw [hsegments, hsegments', Route.of_append_of_eq q hroute]

/-- **Detours make no difference:** a name that is taken back by two dots and a dot can be
left out of a path wherever they stand, and it leads to the same place from every file. -/
theorem resolve_collapse (base : String) {p q : List (List Char)} {x : List Char}
    (hslash : ∀ s ∈ p ++ x :: q, '/' ∉ s) (hne : p ++ q ≠ []) (hx : IsName x)
    (h : (joinSegments (p ++ q)).head? ≠ some '/') :
    ((joinSegments (p ++ [x, ['.', '.']] ++ q)).head? ≠ some '/' →
        resolve base (String.ofList (joinSegments (p ++ [x, ['.', '.']] ++ q))) =
          resolve base (String.ofList (joinSegments (p ++ q)))) ∧
      ((joinSegments (p ++ [['.']] ++ q)).head? ≠ some '/' →
        resolve base (String.ofList (joinSegments (p ++ [['.']] ++ q))) =
          resolve base (String.ofList (joinSegments (p ++ q)))) := by
  have hback : Route.of (p ++ [x, ['.', '.']]) = Route.of p := by
    rw [List.append_cons, Route.of_concat, Route.of_concat, Route.step_step_dots hx]
  have hstay : Route.of (p ++ [['.']]) = Route.of p := by
    rw [Route.of_concat, Route.step_dot]
  simp only [List.mem_append, List.mem_cons, or_imp, forall_and, forall_eq] at hslash
  obtain ⟨hp, hno, hq⟩ := hslash
  refine ⟨fun hhead => resolve_join_eq_of_route base ?_ (by simp) hne hhead h hback,
    fun hhead => resolve_join_eq_of_route base ?_ (by simp) hne hhead h hstay⟩
  · simpa [or_imp, forall_and, hno] using And.intro hp hq
  · simpa [or_imp, forall_and] using And.intro hp hq

/-- An empty segment is a name, and a path may climb before it. -/
theorem resolve_collapse_empty :
    resolve "/src/a" "../..//../b" = resolve "/src/a" "../../b" ∧
      resolve "/src/a" "../.././b" = resolve "/src/a" "../../b" := by
  obtain ⟨hback, hstay⟩ := resolve_collapse "/src/a" (p := [['.', '.'], ['.', '.']]) (q := [['b']])
    (x := []) (by decide) (by decide) (by decide) (by decide)
  exact ⟨hback (by decide), hstay (by decide)⟩

end ModuleGraph
