/-
# The parts of concrete trees

Whatever looks into a concrete tree goes from a node to its named children, its parts;
punctuation and keywords are passed over. So a tree is taken apart here by its parts alone:
what holds of a node as soon as it holds of its parts holds of every tree
(`Concrete.induction`), and lowering and the search for misplaced declarations have an
equation each that speaks of parts.

Key definitions: `Concrete.parts`, `Concrete.within`, `Concrete.nodes`.
Key theorems: `Concrete.induction`, `Concrete.within_eq`, `lower_eq`, `misplaced_eq`.
-/
import Mathlib.Algebra.GroupWithZero.Nat
import ModuleGraph.Syntax.Lowering

namespace ModuleGraph.Syntax

namespace Concrete

/-- The named children of a node. -/
def parts (tree : Concrete) : List Concrete := tree.children.filter named

theorem sizeOf_lt_of_mem_parts {tree part : Concrete} (h : part ∈ tree.parts) :
    sizeOf part < sizeOf tree := by
  obtain ⟨label, children⟩ := tree
  have hlt : sizeOf part < sizeOf children := List.sizeOf_lt_of_mem (List.mem_filter.1 h).1
  simp only [node.sizeOf_spec]
  omega

/-- **Induction over the parts.** -/
theorem induction {motive : Concrete → Prop}
    (step : ∀ tree : Concrete, (∀ part ∈ tree.parts, motive part) → motive tree)
    (tree : Concrete) : motive tree :=
  step tree fun part _ => induction step part
termination_by sizeOf tree
decreasing_by exact sizeOf_lt_of_mem_parts ‹_›

mutual
/-- The nodes strictly within a tree that are reached through named ones, in pre-order. -/
def within : Concrete → List Concrete
  | node _ children => withinAll children

def withinAll : List Concrete → List Concrete
  | [] => []
  | tree :: rest => if tree.named then tree :: (within tree ++ withinAll rest) else withinAll rest
end

/-- The nodes of a tree that are reached through named ones, the tree itself first. -/
def nodes (tree : Concrete) : List Concrete := tree :: tree.within

theorem withinAll_eq : ∀ trees : List Concrete,
    withinAll trees = (trees.filter named).flatMap nodes
  | [] => rfl
  | tree :: rest => by
    have ih := withinAll_eq rest
    cases hnamed : tree.named <;> simp [withinAll, nodes, hnamed, ih]

theorem within_eq (tree : Concrete) : tree.within = tree.parts.flatMap nodes := by
  obtain ⟨label, children⟩ := tree
  exact withinAll_eq children

theorem self_mem_nodes (tree : Concrete) : tree ∈ tree.nodes := List.mem_cons_self

theorem mem_nodes_of_part {tree part node : Concrete} (hpart : part ∈ tree.parts)
    (h : node ∈ part.nodes) : node ∈ tree.nodes :=
  List.mem_cons_of_mem _ (within_eq tree ▸ List.mem_flatMap.2 ⟨part, hpart, h⟩)

theorem mem_nodes_trans {tree node inner : Concrete} (hnode : node ∈ tree.nodes)
    (h : inner ∈ node.nodes) : inner ∈ tree.nodes := by
  induction tree using induction with
  | step tree ih =>
    rcases List.mem_cons.1 hnode with rfl | hwithin
    · exact h
    · obtain ⟨part, hpart, hmem⟩ := List.mem_flatMap.1 (within_eq tree ▸ hwithin)
      exact mem_nodes_of_part hpart (ih part hpart hmem)

end Concrete

theorem lowerAll_eq : ∀ trees : List Concrete,
    lowerAll trees = (trees.filter Concrete.named).map fun part => (part.field, lower part)
  | [] => rfl
  | tree :: rest => by
    have ih := lowerAll_eq rest
    cases hnamed : tree.named <;> simp [lowerAll, hnamed, ih]

theorem lower_eq (tree : Concrete) :
    lower tree = .object (assemble (head tree.label tree.children)
      (tree.parts.map fun part => (part.field, lower part))) := by
  obtain ⟨label, children⟩ := tree
  rw [lower, lowerAll_eq]
  rfl

theorem misplacedAll_eq (options : Options) (parent : String) : ∀ trees : List Concrete,
    misplacedAll options parent trees =
      ((trees.filter Concrete.named).map (misplaced options (some parent))).sum
  | [] => rfl
  | tree :: rest => by
    have ih := misplacedAll_eq options parent rest
    cases hnamed : tree.named <;> simp [misplacedAll, hnamed, ih]

theorem misplaced_eq (options : Options) (holder : Option String) (tree : Concrete) :
    misplaced options holder tree =
      (if linkageKinds.contains tree.kind && !options.allowsWithin holder then 1 else 0) +
        (tree.parts.map (misplaced options (some tree.kind))).sum := by
  obtain ⟨label, children⟩ := tree
  rw [misplaced, misplacedAll_eq]
  rfl

end ModuleGraph.Syntax
