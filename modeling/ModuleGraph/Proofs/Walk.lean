/-
# The order of a walk

What is within a value stands at a position: the list of indices on the way down, which
counts the items of an array and the members of an object in their order. The positions
within a value are listed here in their lexicographic order (`Json.mem_positions`,
`Json.pairwise_positions`), in which a position comes before those below it, and all that
is below a part before the parts after it.

A walk visits what stands at these positions, one after the other (`Json.map_at?_positions`),
and a search for nodes picks some of them in the same order (`forall₂_filter_nodes`).

Key definitions: `Json.parts`, `Json.at?`, `Json.positions`, `Json.NodeAt`.
Key theorems: `Json.induction`, `below_eq`, `Json.mem_positions`, `Json.pairwise_positions`,
`Json.map_at?_positions`, `below_in_order`.
-/
import Mathlib.Data.List.Forall2
import Mathlib.Data.List.Lex
import Mathlib.Data.List.Perm.Subperm
import Mathlib.Data.List.Sort
import ModuleGraph.Tree

namespace ModuleGraph

/-! ### Parts -/

namespace Json

/-- The values that a value directly consists of. -/
def parts : Json → List Json
  | array items => items
  | object members => members.map Prod.snd
  | _ => []

theorem sizeOf_lt_of_mem_parts {v part : Json} (h : part ∈ v.parts) : sizeOf part < sizeOf v := by
  cases v with
  | array items =>
    have hlt : sizeOf part < sizeOf items := List.sizeOf_lt_of_mem h
    simp only [array.sizeOf_spec]
    omega
  | object members =>
    obtain ⟨⟨name, value⟩, hmember, rfl⟩ := List.mem_map.1 h
    have hlt : sizeOf (name, value) < sizeOf members := List.sizeOf_lt_of_mem hmember
    simp only [Prod.mk.sizeOf_spec] at hlt
    simp only [object.sizeOf_spec]
    omega
  | _ => simp [parts] at h

/-- **Induction over the parts.** -/
theorem induction {motive : Json → Prop}
    (step : ∀ v : Json, (∀ part ∈ v.parts, motive part) → motive v) (v : Json) : motive v :=
  step v fun part _ => induction step part
termination_by sizeOf v
decreasing_by exact sizeOf_lt_of_mem_parts ‹_›

end Json

theorem belowItems_eq : ∀ items : List Json,
    belowItems items = items.flatMap fun v => v :: below v
  | [] => rfl
  | v :: rest => by simp [belowItems, belowItems_eq rest]

theorem belowMembers_eq : ∀ members : List (String × Json),
    belowMembers members = members.flatMap fun member => member.2 :: below member.2
  | [] => rfl
  | (_, v) :: rest => by simp [belowMembers, belowMembers_eq rest]

/-- A walk visits each part, and then what is within it. -/
theorem below_eq (v : Json) : below v = v.parts.flatMap fun part => part :: below part := by
  cases v with
  | array items => exact belowItems_eq items
  | object members => rw [below, belowMembers_eq, Json.parts, List.flatMap_map]
  | _ => rfl

/-! ### Positions -/

namespace Json

/-- What stands at a position of a value. -/
def at? : Json → List Nat → Option Json
  | v, [] => some v
  | v, i :: p => v.parts[i]?.bind fun part => part.at? p

@[simp] theorem at?_nil (v : Json) : v.at? [] = some v := rfl

@[simp] theorem at?_cons (v : Json) (i : Nat) (p : List Nat) :
    v.at? (i :: p) = v.parts[i]?.bind fun part => part.at? p := rfl

mutual
/-- The positions strictly within a value, each before those below it. -/
def positions : Json → List (List Nat)
  | array items => positionsOfItems 0 items
  | object members => positionsOfMembers 0 members
  | _ => []

def positionsOfItems (i : Nat) : List Json → List (List Nat)
  | [] => []
  | v :: rest => ([] :: positions v).map (i :: ·) ++ positionsOfItems (i + 1) rest

def positionsOfMembers (i : Nat) : List (String × Json) → List (List Nat)
  | [] => []
  | (_, v) :: rest => ([] :: positions v).map (i :: ·) ++ positionsOfMembers (i + 1) rest
end

theorem positionsOfItems_eq (i : Nat) (items : List Json) : positionsOfItems i items =
    (items.zipIdx i).flatMap fun part => ([] :: part.1.positions).map (part.2 :: ·) := by
  induction items generalizing i with
  | nil => rfl
  | cons v rest ih => rw [positionsOfItems, ih, List.zipIdx_cons, List.flatMap_cons]

theorem positionsOfMembers_eq (i : Nat) (members : List (String × Json)) :
    positionsOfMembers i members = positionsOfItems i (members.map Prod.snd) := by
  induction members generalizing i with
  | nil => rfl
  | cons member rest ih =>
    obtain ⟨name, v⟩ := member
    rw [positionsOfMembers, ih]
    rfl

theorem positions_eq (v : Json) : v.positions =
    v.parts.zipIdx.flatMap fun part => ([] :: part.1.positions).map (part.2 :: ·) := by
  rw [← positionsOfItems_eq]
  cases v with
  | object members => exact positionsOfMembers_eq 0 members
  | _ => rfl

variable {v : Json} {p q : List Nat}

theorem cons_mem_positions {i : Nat} : i :: p ∈ v.positions ↔
    ∃ part, v.parts[i]? = some part ∧ (p = [] ∨ p ∈ part.positions) := by
  rw [positions_eq, List.mem_flatMap]
  constructor
  · rintro ⟨⟨part, j⟩, hpart, hmem⟩
    obtain ⟨q, hq, he⟩ := List.mem_map.1 hmem
    obtain ⟨rfl, rfl⟩ := List.cons.inj he
    exact ⟨part, List.mem_zipIdx_iff_getElem?.1 hpart, List.mem_cons.1 hq⟩
  · rintro ⟨part, hpart, hp⟩
    exact ⟨(part, i), List.mem_zipIdx_iff_getElem?.2 hpart,
      List.mem_map.2 ⟨p, List.mem_cons.2 hp, rfl⟩⟩

/-- The positions that are listed are those at which something stands. -/
theorem mem_positions : p ∈ v.positions ↔ p ≠ [] ∧ (v.at? p).isSome := by
  induction p generalizing v with
  | nil => simp [positions_eq v]
  | cons i p ih =>
    have hpart (part : Json) : (p = [] ∨ p ∈ part.positions) ↔ (part.at? p).isSome := by
      by_cases hp : p = []
      · simp [hp]
      · simp [hp, ih]
    rw [cons_mem_positions, at?_cons]
    cases v.parts[i]? <;> simp [hpart]

/-- The positions are listed in ascending order, and so each of them once. -/
theorem pairwise_positions (v : Json) : v.positions.Pairwise (List.Lex (· < ·)) := by
  induction v using induction with
  | step v ih =>
    have hindices : v.parts.zipIdx.Pairwise fun part later => part.2 < later.2 := by
      rw [← List.pairwise_map, List.zipIdx_map_snd]
      exact List.pairwise_lt_range' 1
    rw [positions_eq, List.pairwise_flatMap]
    refine ⟨fun part hpart => ?_, hindices.imp fun hlt p hp q hq => ?_⟩
    · have hwithin : part.1.positions.Pairwise (List.Lex (· < ·)) :=
        ih part.1 (List.fst_mem_of_mem_zipIdx hpart)
      have hfirst : ∀ p ∈ part.1.positions, List.Lex (· < ·) [] p := by
        intro p hp
        obtain ⟨i, p, rfl⟩ := List.exists_cons_of_ne_nil (mem_positions.1 hp).1
        exact .nil
      exact List.pairwise_map.2 ((List.pairwise_cons.2 ⟨hfirst, hwithin⟩).imp .cons)
    · -- what is within different parts differs in the index of the part
      obtain ⟨p, -, rfl⟩ := List.mem_map.1 hp
      obtain ⟨q, -, rfl⟩ := List.mem_map.1 hq
      exact .rel hlt

example : positions (object [("a", .null), ("b", .array [.null, object [("a", .null)]])]) =
    [[0], [1], [1, 0], [1, 1], [1, 1, 0]] := by
  decide

/-- Of two positions the lesser is listed first. -/
theorem sublist_positions (hp : p ∈ v.positions) (hq : q ∈ v.positions)
    (h : List.Lex (· < ·) p q) : [p, q].Sublist v.positions := by
  have hne : p ≠ q := fun e => List.lex_irrefl Nat.lt_irrefl q (e ▸ h)
  have hsub : List.Subperm [p, q] v.positions :=
    List.Nodup.subperm (by simpa using hne) (by simp [hp, hq])
  exact List.sublist_of_subperm_of_pairwise hsub (List.pairwise_pair.2 h) (pairwise_positions v)

/-- **A walk goes by position:** one after the other, it visits what stands at the
positions. -/
theorem map_at?_positions (v : Json) : v.positions.map v.at? = (below v).map some := by
  induction v using induction with
  | step v ih =>
    calc v.positions.map v.at?
        = v.parts.zipIdx.flatMap fun part => (part.1 :: below part.1).map some := by
          rw [positions_eq, List.map_flatMap]
          refine List.flatMap_congr fun part hpart => ?_
          have hat (p : List Nat) : v.at? (part.2 :: p) = part.1.at? p := by
            simp [List.mem_zipIdx_iff_getElem?.1 hpart]
          simp [hat, ← ih part.1 (List.fst_mem_of_mem_zipIdx hpart)]
      _ = v.parts.flatMap fun part => (part :: below part).map some := by
          conv_rhs => rw [← List.zipIdx_map_fst 0 v.parts, List.flatMap_map]
      _ = (below v).map some := by rw [below_eq v, List.map_flatMap]

end Json

/-! ### Nodes -/

theorem Node.of?_eq_some_iff {v : Json} {node : Node} : Node.of? v = some node ↔
    v = .object node.members ∧ node.members.get? "kind" = some (.string node.kind) := by
  constructor
  · intro h
    unfold of? at h
    split at h
    · next members =>
      split at h
      · next kind hkind =>
        obtain rfl := Option.some.inj h
        exact ⟨rfl, hkind⟩
      · cases h
    · cases h
  · rintro ⟨rfl, hkind⟩
    rw [of?, hkind]

namespace Json

/-- A node stands at a position: an object whose `kind` is a string. -/
structure NodeAt (v : Json) (p : List Nat) (node : Node) : Prop where
  at? : v.at? p = some (.object node.members)
  kind : node.members.get? "kind" = some (.string node.kind)

/-- Whether a node of some kinds stands at a position. -/
def isNodeAt (kinds : List String) (v : Json) (p : List Nat) : Bool :=
  ((v.at? p).bind Node.of?).any fun node => kinds.contains node.kind

variable {kinds : List String} {v : Json} {p : List Nat}

theorem isNodeAt_iff :
    isNodeAt kinds v p = true ↔ ∃ node, v.NodeAt p node ∧ node.kind ∈ kinds := by
  simp only [isNodeAt, Option.any_eq_true, Option.bind_eq_some_iff, Node.of?_eq_some_iff,
    List.contains_iff_mem]
  constructor
  · rintro ⟨node, ⟨x, hat, rfl, hkind⟩, hmem⟩
    exact ⟨node, ⟨hat, hkind⟩, hmem⟩
  · rintro ⟨node, ⟨hat, hkind⟩, hmem⟩
    exact ⟨node, ⟨_, hat, rfl, hkind⟩, hmem⟩

end Json

/-- A search picks the nodes of some kinds from what stands at the positions. -/
theorem forall₂_filter_nodes {v : Json} {positions : List (List Nat)} {values : List Json}
    (kinds : List String) (h : List.Forall₂ (fun p x => v.at? p = some x) positions values) :
    List.Forall₂ v.NodeAt (positions.filter (v.isNodeAt kinds))
      ((values.filterMap Node.of?).filter fun node => kinds.contains node.kind) := by
  induction h with
  | nil => exact .nil
  | @cons p x positions values hat _ ih =>
    cases hof : Node.of? x with
    | none => simpa [Json.isNodeAt, hat, hof] using ih
    | some node =>
      obtain ⟨rfl, hkind⟩ := Node.of?_eq_some_iff.1 hof
      by_cases hmem : node.kind ∈ kinds
      · simpa [Json.isNodeAt, hat, hof, hmem] using List.Forall₂.cons ⟨hat, hkind⟩ ih
      · simpa [Json.isNodeAt, hat, hof, hmem] using ih

/-- **A walk goes through the positions in order.** It visits, once each, what stands at the
positions strictly within a value, in their lexicographic order: a value before all that is
within it, and all that is within a part before the parts after it. The nodes of some kinds
are, in the same order, what stands at those of the positions at which there is an object
with such a kind; the value itself is not one of them, whatever its kind. -/
theorem below_in_order (v : Json) :
    v.positions.Pairwise (List.Lex (· < ·)) ∧
      (∀ p, p ∈ v.positions ↔ p ≠ [] ∧ (v.at? p).isSome) ∧
      List.Forall₂ (fun p x => v.at? p = some x) v.positions (below v) ∧
      (∀ p q, q ≠ [] → p ∈ v.positions → p ++ q ∈ v.positions →
        [p, p ++ q].Sublist v.positions) ∧
      (∀ p q i j, i < j → p ++ i :: q ∈ v.positions → p ++ [j] ∈ v.positions →
        [p ++ i :: q, p ++ [j]].Sublist v.positions) ∧
      ∀ kinds, ∃ found, found.Sublist v.positions ∧
        (∀ p, p ∈ found ↔ p ≠ [] ∧ ∃ node, v.NodeAt p node ∧ node.kind ∈ kinds) ∧
        List.Forall₂ v.NodeAt found (nodesOfKind kinds v) := by
  have hwalk : List.Forall₂ (fun p x => v.at? p = some x) v.positions (below v) := by
    rw [← List.forall₂_map_right_iff, ← List.forall₂_map_left_iff, List.forall₂_eq_eq_eq]
    exact v.map_at?_positions
  refine ⟨v.pairwise_positions, fun p => Json.mem_positions, hwalk, ?_, ?_, fun kinds => ?_⟩
  · intro p q hq hp hpq
    obtain ⟨i, q, rfl⟩ := List.exists_cons_of_ne_nil hq
    have hlex : List.Lex (· < ·) (p ++ []) (p ++ i :: q) := .append_left _ .nil p
    rw [List.append_nil] at hlex
    exact Json.sublist_positions hp hpq hlex
  · intro p q i j hlt hpq hp
    exact Json.sublist_positions hpq hp (.append_left _ (.rel hlt) p)
  · refine ⟨v.positions.filter (v.isNodeAt kinds), List.filter_sublist, fun p => ?_,
      forall₂_filter_nodes kinds hwalk⟩
    rw [List.mem_filter, Json.mem_positions, Json.isNodeAt_iff, and_assoc]
    refine and_congr_right fun _ => and_iff_right_of_imp ?_
    rintro ⟨node, hnode, -⟩
    rw [hnode.at?]
    rfl

end ModuleGraph
