/-
# The references of a concrete tree

Each import, export and required module of a text gives one reference, wherever it stands, if
it names a module by a literal that is not empty; nothing else gives any
(`references_lower_perm`). The literal is the string under `source`; a required module without
a `source` has it as the first string that no field holds (`Concrete.literal?`). The reference
is the cooked text of the literal with its span.

References are looked for in the lowered tree, so this rests on what lowering keeps: every node
(`nodes_lower_perm`), and of each node its own data, its `source` and the children that no
field holds.

Key definitions: `Concrete.literal?`, `Concrete.reference?`, `Concrete.declarations`,
`Concrete.WellFormed`.
Key theorems: `ofLiteral?_asNode`, `ofDeclaration?_asNode`, `references_lower_perm`.
-/
import ModuleGraph.Proofs.Lowered
import ModuleGraph.Reference

namespace ModuleGraph.Syntax

namespace Concrete

/-- The string literal by which a declaration names its module. -/
def literal? (tree : Concrete) : Option Concrete :=
  match tree.held (some "source") with
  | source :: _ => if source.kind = "string" then some source else none
  | [] =>
    if tree.kind = "import_require_clause" then
      (tree.held none).find? fun part => part.kind == "string"
    else none

/-- What a declaration refers to: the cooked text of its literal, unless it is empty, with the
span of the literal. -/
def reference? (tree : Concrete) : Option Reference :=
  tree.literal?.bind fun literal =>
    if cooked literal.children = "" then none
    else some ⟨cooked literal.children, literal.start, literal.stop⟩

/-- The imports, exports and required modules that are reached in a tree. -/
def declarations (tree : Concrete) : List Concrete :=
  tree.nodes.filter fun node => referringKinds.contains node.kind

/-- No child is held under a name of its node's own, no node has two sources, and offsets have
64 bits. -/
structure WellFormed (tree : Concrete) : Prop where
  plain : ∀ node ∈ tree.nodes, node.Plain
  source : ∀ node ∈ tree.nodes, (node.held (some "source")).length ≤ 1
  span : ∀ node ∈ tree.nodes, node.start < 2 ^ 64 ∧ node.stop < 2 ^ 64

instance (tree : Concrete) : Decidable tree.WellFormed :=
  decidable_of_iff ((∀ node ∈ tree.nodes, node.Plain) ∧
    (∀ node ∈ tree.nodes, (node.held (some "source")).length ≤ 1) ∧
    ∀ node ∈ tree.nodes, node.start < 2 ^ 64 ∧ node.stop < 2 ^ 64)
  ⟨fun ⟨plain, source, span⟩ => ⟨plain, source, span⟩, fun h => ⟨h.plain, h.source, h.span⟩⟩

end Concrete

open Concrete

variable {tree : Concrete}

theorem heldAll_ne_string {children : List Json}
    (h : ∀ child ∈ children, child.isObject = true) (text : String) :
    heldAll none children ≠ some (.string text) := by
  rw [heldAll_none h]
  split
  · exact fun e => by cases e
  · next child =>
    intro e
    have hobject := h child List.mem_cons_self
    rw [Option.some.inj e] at hobject
    cases hobject
  · exact fun e => by cases Option.some.inj e

/-- The cooked text stands under `value` in string literals only. -/
theorem value_asNode_eq_string_iff (h : tree.Plain) (text : String) :
    tree.asNode.field? "value" = some (.string text) ↔
      tree.kind = "string" ∧ text = cooked tree.children := by
  by_cases hkind : tree.kind = "string"
  · have hvalue : (head tree.label tree.children).get? "value" =
        some (.string (cooked tree.children)) := by
      have hlabel : tree.label.kind = "string" := hkind
      simp [head, hlabel, Table.get?]
    rw [field?_asNode_of_reserved h (by simp [reserved, hkind]) (by decide), hvalue]
    simp [hkind, eq_comm]
  · have hvalue : (head tree.label tree.children).get? "value" = none := by
      have hlabel : tree.label.kind ≠ "string" := hkind
      simp [head, hlabel, Table.get?]
    have hobjects : ∀ child ∈ (tree.held (some "value")).map lower, child.isObject = true := by
      simp [isObject_lower]
    rw [field?_asNode (by decide), hvalue]
    simp [hkind, heldAll_ne_string hobjects text]

theorem offset_int {n : Nat} (h : n < 2 ^ 64) : Node.offset (some (.int n)) = n := by
  rw [Node.offset, if_pos ⟨Int.natCast_nonneg n, Int.ofNat_lt.2 h⟩, Int.toNat_natCast]

theorem start_asNode (h : tree.Plain) (hspan : tree.start < 2 ^ 64) :
    tree.asNode.start = tree.start := by
  have hstart : tree.asNode.field? "start" = some (.int tree.start) :=
    field?_asNode_of_reserved h (by simp [reserved]) (by decide)
  rw [Node.start, hstart, offset_int hspan]

theorem stop_asNode (h : tree.Plain) (hspan : tree.stop < 2 ^ 64) :
    tree.asNode.stop = tree.stop := by
  have hstop : tree.asNode.field? "end" = some (.int tree.stop) :=
    field?_asNode_of_reserved h (by simp [reserved]) (by decide)
  rw [Node.stop, hstop, offset_int hspan]

/-- A lowered node is read as a literal exactly if it is a string that is not empty. -/
theorem ofLiteral?_asNode (h : tree.Plain) (hspan : tree.start < 2 ^ 64 ∧ tree.stop < 2 ^ 64) :
    Reference.ofLiteral? tree.asNode =
      if tree.kind = "string" then
        if cooked tree.children = "" then none
        else some ⟨cooked tree.children, tree.start, tree.stop⟩
      else none := by
  unfold Reference.ofLiteral?
  by_cases hkind : tree.kind = "string"
  · rw [(value_asNode_eq_string_iff h _).2 ⟨hkind, rfl⟩, if_pos hkind]
    simp [start_asNode h hspan.1, stop_asNode h hspan.2]
  · rw [if_neg hkind]
    split
    · next text hvalue => exact absurd ((value_asNode_eq_string_iff h text).1 hvalue).1 hkind
    · rfl

/-- The source of a lowered node is the one that the node holds. -/
theorem child?_source_asNode (hparts : ∀ part ∈ tree.parts, part.Plain)
    (hone : (tree.held (some "source")).length ≤ 1) :
    tree.asNode.child? "source" = (tree.held (some "source")).head?.map asNode := by
  rw [Node.child?, field?_asNode (by decide), get?_head_eq_none tree (by decide)]
  cases hheld : tree.held (some "source") with
  | nil => rfl
  | cons source rest =>
    have hrest : rest = [] := by
      rw [hheld, List.length_cons] at hone
      exact List.length_eq_zero_iff.1 (by omega)
    have hsource : source ∈ tree.parts :=
      (List.mem_filter.1 (hheld ▸ List.mem_cons_self)).1
    rw [hrest]
    simpa [heldAll, placed] using of?_lower (hparts source hsource)

/-- The first literal among the children without a field is the lowered first string. -/
theorem firstLiteral?_asNode (h : tree.Plain) (hparts : ∀ part ∈ tree.parts, part.Plain) :
    Reference.firstLiteral? tree.asNode =
      ((tree.held none).find? fun part => part.kind == "string").map asNode := by
  have hheld : tree.held (some "children") = [] := h "children" (by simp [reserved])
  have hnodes : ((tree.held none).map lower).filterMap Node.of? = (tree.held none).map asNode := by
    rw [List.filterMap_map, ← List.filterMap_eq_map]
    refine List.filterMap_congr fun part hpart => ?_
    exact of?_lower (hparts part (List.mem_filter.1 hpart).1)
  unfold Reference.firstLiteral?
  rw [field?_children_asNode hheld]
  cases hempty : (tree.held none).isEmpty with
  | true => rw [List.isEmpty_iff.1 hempty]; rfl
  | false =>
    simp only [Bool.false_eq_true, if_false, hnodes, List.find?_map]
    rfl

/-- **A lowered declaration refers to what the declaration refers to.** -/
theorem ofDeclaration?_asNode (h : tree.WellFormed) :
    Reference.ofDeclaration? tree.asNode = tree.reference? := by
  have hself : tree ∈ tree.nodes := tree.self_mem_nodes
  have hpart : ∀ part ∈ tree.parts, part ∈ tree.nodes := fun part hmem =>
    mem_nodes_of_part hmem part.self_mem_nodes
  have hparts : ∀ part ∈ tree.parts, part.Plain := fun part hmem => h.plain part (hpart part hmem)
  have hliteral : ∀ field, ∀ part ∈ tree.held field, Reference.ofLiteral? part.asNode =
      if part.kind = "string" then
        if cooked part.children = "" then none
        else some ⟨cooked part.children, part.start, part.stop⟩
      else none := fun field part hmem =>
    have hnode := hpart part (List.mem_filter.1 hmem).1
    ofLiteral?_asNode (h.plain part hnode) (h.span part hnode)
  unfold Reference.ofDeclaration? Reference.literal? reference? literal?
  rw [child?_source_asNode hparts (h.source tree hself)]
  match hsource : tree.held (some "source") with
  | source :: _ =>
    have hmem : source ∈ tree.held (some "source") := hsource ▸ List.mem_cons_self
    simp only [List.head?_cons, Option.map_some, Option.bind_some, hliteral _ source hmem]
    split <;> rfl
  | [] =>
    have hkind : tree.asNode.kind = tree.kind := rfl
    simp only [List.head?_nil, Option.map_none, hkind]
    split
    · rw [firstLiteral?_asNode (h.plain tree hself) hparts]
      cases hfind : (tree.held none).find? fun part => part.kind == "string" with
      | none => rfl
      | some literal =>
        have hstring : literal.kind = "string" := by simpa using List.find?_some hfind
        simp only [Option.map_some, Option.bind_some,
          hliteral none literal (List.mem_of_find?_eq_some hfind), if_pos hstring]
    · rfl

theorem Concrete.WellFormed.of_mem (h : tree.WellFormed) {node : Concrete}
    (hnode : node ∈ tree.nodes) : node.WellFormed where
  plain inner hinner := h.plain inner (mem_nodes_trans hnode hinner)
  source inner hinner := h.source inner (mem_nodes_trans hnode hinner)
  span inner hinner := h.span inner (mem_nodes_trans hnode hinner)

/-- **Each declaration gives its reference, wherever it stands, and nothing else gives any:**
the references of a lowered program are those of the imports, exports and required modules
that are reached in the concrete tree, one for each that names a module. -/
theorem references_lower_perm (hroot : tree.kind = "program") (h : tree.WellFormed) :
    (references (lower tree)).Perm (tree.declarations.filterMap reference?) := by
  have hdeclarations : tree.declarations =
      tree.within.filter fun node => referringKinds.contains node.kind := by
    rw [declarations, Concrete.nodes, List.filter_cons_of_neg (by simp [hroot, referringKinds])]
  have hmap : (tree.within.map asNode).filter (fun node => referringKinds.contains node.kind) =
      tree.declarations.map asNode := by
    rw [hdeclarations, List.filter_map]
    rfl
  calc references (lower tree)
      = (((below (lower tree)).filterMap Node.of?).filter fun node =>
          referringKinds.contains node.kind).filterMap Reference.ofDeclaration? := rfl
    List.Perm _ ((tree.declarations.map asNode).filterMap Reference.ofDeclaration?) := by
        rw [← hmap]
        exact ((filterMap_below_lower_perm h.plain).filter _).filterMap _
    _ = tree.declarations.filterMap reference? := by
        rw [List.filterMap_map]
        refine List.filterMap_congr fun node hnode => ?_
        exact ofDeclaration?_asNode (h.of_mem (List.mem_filter.1 hnode).1)

/-- A required module within a namespace, and an import without a name. -/
def nestedRequire : String := "namespace N \x7bimport b = require('./a')\x7d import ''"

theorem references_of_nestedRequire :
    (parse .typescript nestedRequire).root.kind = "program" ∧
      (parse .typescript nestedRequire).root.WellFormed ∧
      (references (lower (parse .typescript nestedRequire).root)).Perm [⟨"./a", 32, 37⟩] := by
  have hparse : (parse .typescript nestedRequire).root.kind = "program" ∧
      (parse .typescript nestedRequire).root.WellFormed ∧
      (parse .typescript nestedRequire).root.declarations.filterMap Concrete.reference? =
        [⟨"./a", 32, 37⟩] := by
    decide +kernel
  obtain ⟨hroot, hform, hreferences⟩ := hparse
  exact ⟨hroot, hform, hreferences ▸ references_lower_perm hroot hform⟩

end ModuleGraph.Syntax
