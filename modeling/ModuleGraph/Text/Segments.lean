/-
# Segments of a path

A path is cut at its slashes into segments, one more than there are slashes;
joining the segments gives the path back.

Key definitions: `segments`, `joinSegments`, `withoutPrefix`.
Key theorems: `joinSegments_segments`, `segments_joinSegments`,
`segments_append_cons_slash`.
-/

namespace ModuleGraph.Text

def segments : List Char → List (List Char)
  | [] => [[]]
  | c :: cs =>
    if c = '/' then [] :: segments cs
    else match segments cs with
      | [] => [[c]]
      | s :: ss => (c :: s) :: ss

def joinSegments : List (List Char) → List Char
  | [] => []
  | [s] => s
  | s :: ss => s ++ '/' :: joinSegments ss

theorem segments_ne_nil : ∀ cs : List Char, segments cs ≠ []
  | [] => by simp [segments]
  | c :: cs => by
    unfold segments
    split
    · simp
    · split <;> simp

theorem joinSegments_cons {ss : List (List Char)} (s : List Char) (h : ss ≠ []) :
    joinSegments (s :: ss) = s ++ '/' :: joinSegments ss := by
  cases ss with
  | nil => exact (h rfl).elim
  | cons _ _ => rfl

/-- **Nothing is lost by cutting.** -/
theorem joinSegments_segments : ∀ cs : List Char, joinSegments (segments cs) = cs
  | [] => rfl
  | c :: cs => by
    have ih := joinSegments_segments cs
    unfold segments
    split
    · next h => rw [joinSegments_cons _ (segments_ne_nil cs), ih, h]; rfl
    · match hs : segments cs with
      | [] => exact (segments_ne_nil cs hs).elim
      | [s] => rw [hs] at ih; simp only [joinSegments] at ih ⊢; rw [ih]
      | s :: t :: ss =>
        rw [hs] at ih
        simp only [joinSegments, List.cons_append] at ih ⊢
        rw [ih]

/-- A text without a slash is one segment. -/
theorem segments_of_no_slash : ∀ {cs : List Char}, '/' ∉ cs → segments cs = [cs]
  | [], _ => rfl
  | c :: cs, h => by
    have hc : c ≠ '/' := fun e => h (e ▸ List.mem_cons_self ..)
    have hs : segments cs = [cs] := segments_of_no_slash fun hm => h (List.mem_cons_of_mem _ hm)
    simp [segments, hc, hs]

/-- A text is cut at each of its slashes. -/
theorem segments_append_cons_slash : ∀ a b : List Char,
    segments (a ++ '/' :: b) = segments a ++ segments b
  | [], b => by simp [segments]
  | c :: a, b => by
    have ih := segments_append_cons_slash a b
    by_cases hc : c = '/'
    · simp [segments, hc, ih]
    · obtain ⟨s, ss, hs⟩ := List.exists_cons_of_ne_nil (segments_ne_nil a)
      rw [hs, List.cons_append] at ih
      simp [segments, hc, ih, hs]

/-- The text before a slash and the text behind it are cut apart. -/
theorem segments_append_slash {s : List Char} (cs : List Char) (h : '/' ∉ s) :
    segments (s ++ '/' :: cs) = s :: segments cs := by
  rw [segments_append_cons_slash, segments_of_no_slash h, List.singleton_append]

/-- **Cutting finds what was joined,** if there is something to join and no
segment has a slash of its own. -/
theorem segments_joinSegments : ∀ {ss : List (List Char)}, ss ≠ [] → (∀ s ∈ ss, '/' ∉ s) →
    segments (joinSegments ss) = ss
  | [], h, _ => (h rfl).elim
  | [s], _, h => segments_of_no_slash (h s (List.mem_cons_self ..))
  | s :: t :: ss, _, h => by
    have ih : segments (joinSegments (t :: ss)) = t :: ss :=
      segments_joinSegments (by simp) fun u hu => h u (List.mem_cons_of_mem _ hu)
    rw [joinSegments_cons s (by simp), segments_append_slash _ (h s (List.mem_cons_self ..)), ih]

/-- No segment has a slash. -/
theorem no_slash_of_mem_segments : ∀ {cs s : List Char}, s ∈ segments cs → '/' ∉ s
  | [], s, h => by simp_all [segments]
  | c :: cs, s, h => by
    have ih : ∀ u ∈ segments cs, '/' ∉ u := fun _ => no_slash_of_mem_segments
    unfold segments at h
    split at h
    · rcases List.mem_cons.1 h with rfl | h
      · simp
      · exact ih s h
    · next hc =>
      match hs : segments cs with
      | [] => exact (segments_ne_nil cs hs).elim
      | u :: us =>
        rw [hs] at h ih
        rcases List.mem_cons.1 h with rfl | h
        · simp only [List.mem_cons, not_or]
          exact ⟨fun e => hc e.symm, ih u (List.mem_cons_self ..)⟩
        · exact ih s (List.mem_cons_of_mem _ h)

/-- A text without the beginning `p`, if it has that beginning. -/
def withoutPrefix (p cs : List Char) : List Char :=
  if p.isPrefixOf cs then cs.drop p.length else cs

@[simp] theorem withoutPrefix_append (p cs : List Char) : withoutPrefix p (p ++ cs) = cs := by
  simp [withoutPrefix]

theorem not_prefix_of_head {p cs : List Char} {c : Char} (hp : p.head? = some c)
    (hcs : cs.head? ≠ some c) : ¬ p <+: cs := by
  rintro ⟨rest, rfl⟩
  exact hcs (by rw [List.head?_append, hp]; rfl)

theorem withoutPrefix_of_not {p cs : List Char} (h : ¬ p <+: cs) : withoutPrefix p cs = cs := by
  simp [withoutPrefix, h]

end ModuleGraph.Text
