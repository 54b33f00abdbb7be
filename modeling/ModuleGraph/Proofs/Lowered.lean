/-
# What lowering keeps

Lowering loses no node and makes up none: the nodes that are met on a walk through a lowered
tree are those that are reached in the concrete tree through named ones, each as often
(`nodes_lower_perm`), as long as no child is held under a name that its node has for data of
its own (`Concrete.Plain`).

A node is assembled child by child. A child that comes under a new name stands there alone;
one that comes under a name that is taken already goes behind what stands there, in an array
(`placed`). So nothing is overwritten: what is met under the members grows by what is met
under the child (`nodes_addField_perm`), and what a name stands for at the end is made up of
all the children that the name holds (`field?_asNode`). `lower_keeps` says both: which nodes
are met, and what each of them has under its names.

Key definitions: `Json.nodes`, `placed`, `heldAll`, `Concrete.held`, `Concrete.Plain`,
`Concrete.asNode`, `Concrete.heldUnder`.
Key theorems: `nodes_addField_perm`, `field?_asNode`, `field?_children_asNode`,
`nodes_lower_perm`, `lower_keeps`.
-/
import Mathlib.Data.List.Perm.Basic
import ModuleGraph.Proofs.Parts
import ModuleGraph.Proofs.Walk

namespace ModuleGraph

/-! ### Tables -/

namespace Table

variable {κ α β : Type} [DecidableEq κ] {key : κ} {value old : α}

/-- What is collected from the values changes by what is collected from the one that is put
and from the one that goes. -/
theorem flatMap_put_perm (f : α → List β) : ∀ {table : Table κ α}, table.get? key = some old →
    (((table.put key value).flatMap fun entry => f entry.2) ++ f old).Perm
      ((table.flatMap fun entry => f entry.2) ++ f value)
  | (k, v) :: rest, h => by
    by_cases hk : k = key
    · obtain rfl : v = old := by simpa [get?, hk] using h
      simp only [put, if_pos hk, List.flatMap_cons, List.append_assoc]
      exact (List.perm_append_comm_assoc ..).trans
        ((List.perm_append_comm.append_left _).trans (List.perm_append_comm_assoc ..))
    · have hrest : get? rest key = some old := by simpa [get?, hk] using h
      have ih := flatMap_put_perm f hrest
      simp only [put, if_neg hk, List.flatMap_cons, List.append_assoc]
      exact ih.append_left (f v)

end Table

/-! ### Walks -/

namespace Json

/-- The nodes that are met from a value on, the value itself included. -/
def nodes (value : Json) : List Node := (value :: below value).filterMap Node.of?

theorem filterMap_below (value : Json) :
    (below value).filterMap Node.of? = value.parts.flatMap nodes := by
  rw [below_eq, List.filterMap_flatMap]
  rfl

theorem nodes_array (items : List Json) : (array items).nodes = items.flatMap nodes := by
  have hnone : Node.of? (array items) = none := rfl
  rw [nodes, List.filterMap_cons_none hnone, filterMap_below]
  rfl

/-- The nodes that are met under the members of an object. -/
def nodesUnder (members : Table String Json) : List Node := members.flatMap fun m => m.2.nodes

theorem nodes_object (members : Table String Json) :
    (object members).nodes = (Node.of? (object members)).toList ++ nodesUnder members := by
  have hunder : (below (object members)).filterMap Node.of? = nodesUnder members := by
    rw [filterMap_below, parts, List.flatMap_map]
    rfl
  rw [← hunder, nodes]
  cases h : Node.of? (object members) <;> simp [h]

end Json

namespace Syntax

open Json (nodes nodesUnder)

/-! ### Children under a field -/

/-- What a field holds when a child comes to what it has held. -/
def placed : Option Json → Json → Json
  | none, child => child
  | some (.array items), child => .array (items ++ [child])
  | some first, child => .array [first, child]

/-- What a field holds when children come to what it has held. -/
def heldAll (old : Option Json) (children : List Json) : Option Json :=
  children.foldl (fun held child => some (placed held child)) old

theorem addField_eq (name : String) (child : Json) (members : Table String Json) :
    addField name child members = Table.put name (placed (members.get? name) child) members := by
  unfold addField
  split
  · next h => rw [h, Table.put_of_get?_eq_none h]; rfl
  · next h => rw [h]; rfl
  · next first harray h =>
    rw [h]
    cases first <;> first | rfl | exact absurd rfl (harray _)

theorem nodes_placed (old child : Json) :
    (placed (some old) child).nodes = old.nodes ++ child.nodes := by
  cases old <;> simp [placed, Json.nodes_array]

/-- **Nothing is overwritten:** a child that comes to a field adds the nodes met from it. -/
theorem nodes_addField_perm (name : String) (child : Json) (members : Table String Json) :
    (nodesUnder (addField name child members)).Perm (nodesUnder members ++ child.nodes) := by
  rw [addField_eq]
  cases hold : members.get? name with
  | none =>
    rw [Table.put_of_get?_eq_none hold]
    simp [nodesUnder, placed]
  | some old =>
    have hput : ((Table.put name (placed (some old) child) members).flatMap (fun m => m.2.nodes) ++
        old.nodes).Perm (nodesUnder members ++ (placed (some old) child).nodes) :=
      Table.flatMap_put_perm nodes hold
    rw [nodes_placed] at hput
    refine (List.perm_append_right_iff old.nodes).1 (hput.trans ?_)
    rw [List.append_assoc]
    exact List.perm_append_comm.append_left _

/-- An object does not become anything else, and several become an array of them. -/
theorem heldAll_none : ∀ {children : List Json}, (∀ child ∈ children, child.isObject = true) →
    heldAll none children = match children with
      | [] => none
      | [child] => some child
      | children => some (.array children)
  | [], _ => rfl
  | [child], _ => rfl
  | first :: second :: rest, h => by
    have harray (items : List Json) : ∀ children : List Json,
        heldAll (some (.array items)) children = some (.array (items ++ children)) := by
      intro children
      induction children generalizing items with
      | nil => simp [heldAll]
      | cons child children ih =>
        exact (ih (items ++ [child])).trans (by simp)
    have hfirst : placed (some first) second = .array [first, second] := by
      have hobject := h first List.mem_cons_self
      cases first <;> first | rfl | cases hobject
    rw [heldAll, List.foldl_cons, List.foldl_cons, placed, hfirst]
    exact harray [first, second] rest

/-! ### Assembled objects -/

/-- The children under a field, or those that none holds. -/
def partsUnder (field : Option String) (parts : List (Option String × Json)) : List Json :=
  (parts.filter fun part => part.1 == field).map Prod.snd

/-- The members of a node with the children that come under fields. -/
def withFields (members : Table String Json) (parts : List (Option String × Json)) :
    Table String Json :=
  parts.foldl (fun ms part =>
    match part.1 with
    | some name => addField name part.2 ms
    | none => ms) members

theorem assemble_eq (members : Table String Json) (parts : List (Option String × Json)) :
    assemble members parts =
      if (partsUnder none parts).isEmpty then withFields members parts
      else Table.put "children" (.array (partsUnder none parts)) (withFields members parts) := by
  have hothers : (parts.filterMap fun part => if part.1.isNone then some part.2 else none) =
      partsUnder none parts := by
    unfold partsUnder
    induction parts with
    | nil => rfl
    | cons part parts ih => obtain ⟨_ | name, child⟩ := part <;> simpa using ih
  rw [assemble, hothers]
  rfl

theorem get?_withFields (name : String) (members : Table String Json)
    (parts : List (Option String × Json)) :
    (withFields members parts).get? name =
      heldAll (members.get? name) (partsUnder (some name) parts) := by
  induction parts generalizing members with
  | nil => rfl
  | cons part parts ih =>
    obtain ⟨_ | field, child⟩ := part
    · exact ih members
    · have hstep : withFields members ((some field, child) :: parts) =
          withFields (addField field child members) parts := rfl
      rw [hstep, ih, addField_eq, Table.get?_put]
      by_cases hfield : field = name
      · simp [partsUnder, heldAll, hfield]
      · simp [partsUnder, heldAll, hfield]

theorem nodesUnder_withFields_perm (members : Table String Json)
    (parts : List (Option String × Json)) :
    (nodesUnder (withFields members parts) ++ (partsUnder none parts).flatMap nodes).Perm
      (nodesUnder members ++ parts.flatMap fun part => part.2.nodes) := by
  induction parts generalizing members with
  | nil => simp [withFields, partsUnder]
  | cons part parts ih =>
    obtain ⟨_ | field, child⟩ := part
    · have hunder : partsUnder none ((none, child) :: parts) = child :: partsUnder none parts := rfl
      rw [hunder, List.flatMap_cons, List.flatMap_cons]
      exact (List.perm_append_comm_assoc ..).trans
        (((ih members).append_left child.nodes).trans (List.perm_append_comm_assoc ..))
    · rw [List.flatMap_cons, ← List.append_assoc]
      exact (ih (addField field child members)).trans
        ((nodes_addField_perm field child members).append_right _)

/-- **Nothing is lost in a node:** what is met under its members is what they had and what is
met from each child, unless a child is held under the name of those that no field holds. -/
theorem nodesUnder_assemble_perm {members : Table String Json}
    {parts : List (Option String × Json)} (hmembers : members.get? "children" = none)
    (hparts : partsUnder (some "children") parts = []) :
    (nodesUnder (assemble members parts)).Perm
      (nodesUnder members ++ parts.flatMap fun part => part.2.nodes) := by
  have hnone : (withFields members parts).get? "children" = none := by
    rw [get?_withFields, hmembers, hparts]
    rfl
  refine .trans (.of_eq ?_) (nodesUnder_withFields_perm members parts)
  rw [assemble_eq]
  split
  · next hempty => simp [List.isEmpty_iff.1 hempty]
  · rw [Table.put_of_get?_eq_none hnone]
    simp [nodesUnder, Json.nodes_array]

theorem get?_assemble {name : String} (hname : name ≠ "children") (members : Table String Json)
    (parts : List (Option String × Json)) : (assemble members parts).get? name =
      heldAll (members.get? name) (partsUnder (some name) parts) := by
  rw [assemble_eq]
  split
  · exact get?_withFields name members parts
  · rw [Table.get?_put, if_neg hname.symm, get?_withFields]

theorem get?_children_assemble {members : Table String Json}
    {parts : List (Option String × Json)} (hmembers : members.get? "children" = none)
    (hparts : partsUnder (some "children") parts = []) :
    (assemble members parts).get? "children" =
      if (partsUnder none parts).isEmpty then none
      else some (.array (partsUnder none parts)) := by
  rw [assemble_eq]
  split
  · rw [get?_withFields, hmembers, hparts]
    rfl
  · rw [Table.get?_put, if_pos rfl]

/-! ### Lowered nodes -/

namespace Concrete

/-- The parts that a field holds, or those that none holds. -/
def held (field : Option String) (tree : Concrete) : List Concrete :=
  tree.parts.filter fun part => part.field == field

/-- The names under which a node has data of its own. -/
def reserved (tree : Concrete) : List String :=
  ["kind", "start", "end", "children"] ++ if tree.kind = "string" then ["value"] else []

/-- No child is held under a name of the node's own. -/
def Plain (tree : Concrete) : Prop := ∀ name ∈ tree.reserved, tree.held (some name) = []

instance (tree : Concrete) : Decidable tree.Plain := List.decidableBAll ..

/-- The node as a node of the lowered tree. -/
def asNode (tree : Concrete) : Node :=
  ⟨tree.kind, assemble (head tree.label tree.children)
    (tree.parts.map fun part => (part.field, lower part))⟩

end Concrete

variable {tree : Concrete} {name : String}

theorem isObject_lower (tree : Concrete) : (lower tree).isObject = true := by
  rw [lower_eq]
  rfl

theorem partsUnder_lower (field : Option String) (tree : Concrete) :
    partsUnder field (tree.parts.map fun part => (part.field, lower part)) =
      (tree.held field).map lower := by
  simp [partsUnder, Concrete.held, List.filter_map, Function.comp_def]

/-- What stands under a name of a lowered node: its own data, and behind them what the
children held there are lowered to. -/
theorem field?_asNode (hname : name ≠ "children") : tree.asNode.field? name =
    heldAll ((head tree.label tree.children).get? name) ((tree.held (some name)).map lower) := by
  rw [← partsUnder_lower]
  exact get?_assemble hname ..

/-- The node's own data stand alone under their names. -/
theorem field?_asNode_of_reserved (h : tree.Plain) (hname : name ∈ tree.reserved)
    (hne : name ≠ "children") :
    tree.asNode.field? name = (head tree.label tree.children).get? name := by
  rw [field?_asNode hne, h name hname]
  rfl

theorem get?_head_eq_none (tree : Concrete) (hname : name ∉ ["kind", "start", "end", "value"]) :
    (head tree.label tree.children).get? name = none := by
  obtain ⟨hkind, hstart, hend, hvalue⟩ :
      name ≠ "kind" ∧ name ≠ "start" ∧ name ≠ "end" ∧ name ≠ "value" := by simpa using hname
  unfold head
  split <;> simp [Table.get?, hkind.symm, hstart.symm, hend.symm, hvalue.symm]

theorem field?_children_asNode (h : tree.held (some "children") = []) :
    tree.asNode.field? "children" =
      if (tree.held none).isEmpty then none else some (.array ((tree.held none).map lower)) := by
  have hparts : partsUnder (some "children")
      (tree.parts.map fun part => (part.field, lower part)) = [] := by
    rw [partsUnder_lower, h]
    rfl
  refine (get?_children_assemble (get?_head_eq_none tree (by decide)) hparts).trans ?_
  rw [partsUnder_lower]
  cases tree.held none <;> rfl

theorem of?_lower (h : tree.Plain) : Node.of? (lower tree) = some tree.asNode := by
  have hkind : tree.asNode.field? "kind" = some (.string tree.kind) :=
    field?_asNode_of_reserved h (by simp [Concrete.reserved]) (by decide)
  rw [lower_eq]
  exact Node.of?_eq_some_iff.2 ⟨rfl, hkind⟩

theorem nodes_lower (h : tree.Plain) :
    (nodes (lower tree)).Perm
      (tree.asNode :: tree.parts.flatMap fun part => nodes (lower part)) := by
  have hhead : nodesUnder (head tree.label tree.children) = [] := by
    unfold head
    split <;> rfl
  have hparts : partsUnder (some "children")
      (tree.parts.map fun part => (part.field, lower part)) = [] := by
    rw [partsUnder_lower, h "children" (by simp [Concrete.reserved])]
    rfl
  have hassembled := nodesUnder_assemble_perm (get?_head_eq_none tree (by decide)) hparts
  rw [hhead, List.nil_append, List.flatMap_map] at hassembled
  have hof := of?_lower h
  rw [lower_eq] at hof ⊢
  rw [Json.nodes_object, hof]
  exact hassembled.cons _

/-- **Lowering loses no node and makes up none:** what is met on a walk through a lowered tree
are the nodes reached in the concrete tree through named ones, each as often as it is there. -/
theorem nodes_lower_perm (h : ∀ node ∈ tree.nodes, node.Plain) :
    (nodes (lower tree)).Perm (tree.nodes.map Concrete.asNode) := by
  induction tree using Concrete.induction with
  | step tree ih =>
    have hself : tree.Plain := h tree tree.self_mem_nodes
    have hparts : ∀ part ∈ tree.parts, (nodes (lower part)).Perm (part.nodes.map Concrete.asNode) :=
      fun part hpart => ih part hpart fun node hnode =>
        h node (Concrete.mem_nodes_of_part hpart hnode)
    rw [Concrete.nodes, Concrete.within_eq, List.map_cons, List.map_flatMap]
    exact (nodes_lower hself).trans ((List.Perm.flatMap_left _ hparts).cons _)

/-- The nodes strictly within a lowered tree. -/
theorem filterMap_below_lower_perm (h : ∀ node ∈ tree.nodes, node.Plain) :
    ((below (lower tree)).filterMap Node.of?).Perm (tree.within.map Concrete.asNode) := by
  have hall := nodes_lower_perm h
  rw [Json.nodes, List.filterMap_cons_some (of?_lower (h tree tree.self_mem_nodes)), Concrete.nodes,
    List.map_cons] at hall
  exact hall.cons_inv

/-! ### What stands where -/

namespace Concrete

/-- What a node has under a name that children are held under: the one child, or all of them
in their order. -/
def heldUnder (tree : Concrete) (name : String) : Option Json :=
  match tree.held (some name) with
  | [] => none
  | [child] => some (lower child)
  | children => some (.array (children.map lower))

end Concrete

theorem get?_head_of_not_reserved (hname : name ∉ tree.reserved) :
    (head tree.label tree.children).get? name = none := by
  obtain ⟨hown, hvalue⟩ : name ∉ ["kind", "start", "end", "children"] ∧
      name ∉ (if tree.kind = "string" then ["value"] else []) := by
    simpa only [Concrete.reserved, List.mem_append, not_or] using hname
  obtain ⟨hkind, hstart, hend, -⟩ :
      name ≠ "kind" ∧ name ≠ "start" ∧ name ≠ "end" ∧ name ≠ "children" := by simpa using hown
  unfold head
  split
  · next hstring =>
    have hne : name ≠ "value" := by simpa [Concrete.kind, hstring] using hvalue
    simp [Table.get?, hkind.symm, hstart.symm, hend.symm, hne.symm]
  · simp [Table.get?, hkind.symm, hstart.symm, hend.symm]

theorem field?_asNode_of_not_reserved (hname : name ∉ tree.reserved) :
    tree.asNode.field? name = tree.heldUnder name := by
  have hne : name ≠ "children" := fun e => hname (by simp [e, Concrete.reserved])
  have hobjects : ∀ child ∈ (tree.held (some name)).map lower, child.isObject = true := by
    simp [isObject_lower]
  rw [field?_asNode hne, get?_head_of_not_reserved hname, heldAll_none hobjects, Concrete.heldUnder]
  match tree.held (some name) with
  | [] => rfl
  | [_] => rfl
  | _ :: _ :: _ => rfl

/-- **Lowering keeps the tree.** The nodes that a walk meets within a lowered tree are the
nodes within the concrete one, each as often as it is there. Each of them has its own kind and
span; the children that it holds under a name stand under that name, in order if they are
several, and the others in order under `children`, if there are any. -/
theorem lower_keeps (h : ∀ node ∈ tree.nodes, node.Plain) :
    ((below (lower tree)).filterMap Node.of?).Perm (tree.within.map Concrete.asNode) ∧
      ∀ node ∈ tree.nodes, Node.of? (lower node) = some node.asNode ∧
        node.asNode.kind = node.kind ∧
        node.asNode.field? "start" = some (.int node.start) ∧
        node.asNode.field? "end" = some (.int node.stop) ∧
        (∀ name ∉ node.reserved, node.asNode.field? name = node.heldUnder name) ∧
        node.asNode.field? "children" =
          if (node.held none).isEmpty then none
          else some (.array ((node.held none).map lower)) := by
  refine ⟨filterMap_below_lower_perm h, fun node hnode => ?_⟩
  have hplain : node.Plain := h node hnode
  have hstart : node.asNode.field? "start" = some (.int node.start) :=
    field?_asNode_of_reserved hplain (by simp [Concrete.reserved]) (by decide)
  have hend : node.asNode.field? "end" = some (.int node.stop) :=
    field?_asNode_of_reserved hplain (by simp [Concrete.reserved]) (by decide)
  have hchildren : node.held (some "children") = [] :=
    hplain "children" (by simp [Concrete.reserved])
  exact ⟨of?_lower hplain, rfl, hstart, hend, fun _ => field?_asNode_of_not_reserved,
    field?_children_asNode hchildren⟩

/-- A node without children, held under a field or under none. -/
def childless (field : Option String) (kind : String) (start stop : Nat) : Concrete :=
  .node { field, kind, start, stop } []

/-- A declaration with two children under one field, and comments between and behind them. -/
def twoDeclarators : Concrete :=
  .node { kind := "lexical_declaration", start := 0, stop := 16 }
    [.node { kind := "const", named := false, start := 0, stop := 5 } [],
      childless (some "declarator") "variable_declarator" 6 7, childless none "comment" 8 12,
      childless (some "declarator") "variable_declarator" 13 14, childless none "comment" 14 16]

theorem lower_keeps_twoDeclarators :
    (∀ node ∈ twoDeclarators.nodes, node.Plain) ∧
      (((below (lower twoDeclarators)).filterMap Node.of?).map fun node =>
        (node.kind, node.start, node.stop)).Perm
          [("variable_declarator", 6, 7), ("comment", 8, 12), ("variable_declarator", 13, 14),
            ("comment", 14, 16)] ∧
      twoDeclarators.asNode.field? "declarator" =
        some (.array [lower (childless (some "declarator") "variable_declarator" 6 7),
          lower (childless (some "declarator") "variable_declarator" 13 14)]) ∧
      twoDeclarators.asNode.field? "children" =
        some (.array [lower (childless none "comment" 8 12),
          lower (childless none "comment" 14 16)]) := by
  have hplain : ∀ node ∈ twoDeclarators.nodes, node.Plain := by decide +kernel
  have hwithin : ((twoDeclarators.within.map Concrete.asNode).map fun node =>
      (node.kind, node.start, node.stop)) =
        [("variable_declarator", 6, 7), ("comment", 8, 12), ("variable_declarator", 13, 14),
          ("comment", 14, 16)] := by
    decide +kernel
  obtain ⟨hperm, hnodes⟩ := lower_keeps hplain
  obtain ⟨-, -, -, -, hheld, hchildren⟩ := hnodes twoDeclarators List.mem_cons_self
  exact ⟨hplain, hwithin ▸ hperm.map _, hheld "declarator" (by decide), hchildren⟩

end Syntax

end ModuleGraph
