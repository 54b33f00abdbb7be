/-
# Lowered trees

A syntax tree as plain data: every named node of a text is an object with a
`kind`, a `start` and an `end`, so that it can be searched without knowing the
grammar. `below` visits a value's parts in the order of the text, each before
what it consists of.

Key definitions: `Node`, `Node.of?`, `below`, `nodesOfKind`.
-/
import ModuleGraph.Json

namespace ModuleGraph

/-- An object whose `kind` is a string. -/
structure Node where
  kind : String
  members : Table String Json

namespace Node

def of? : Json → Option Node
  | .object members =>
    match Table.get? members "kind" with
    | some (.string kind) => some ⟨kind, members⟩
    | _ => none
  | _ => none

def value (node : Node) : Json := .object node.members

/-- What stands under a name of the node. -/
def field? (node : Node) (name : String) : Option Json := node.members.get? name

/-- The node that stands under a name of the node. -/
def child? (node : Node) (name : String) : Option Node := (node.field? name).bind of?

/-- An offset is an integer of 64 bits; anything else counts as none. -/
def offset : Option Json → Nat
  | some (.int n) => if 0 ≤ n ∧ n < Nat.pow 2 64 then n.toNat else 0
  | _ => 0

def start (node : Node) : Nat := offset (node.field? "start")

def stop (node : Node) : Nat := offset (node.field? "end")

end Node

mutual
/-- The values strictly within a value, in pre-order. -/
def below : Json → List Json
  | .array items => belowItems items
  | .object members => belowMembers members
  | _ => []

def belowItems : List Json → List Json
  | [] => []
  | v :: rest => v :: (below v ++ belowItems rest)

def belowMembers : List (String × Json) → List Json
  | [] => []
  | (_, v) :: rest => v :: (below v ++ belowMembers rest)
end

/-- The nodes within a tree, its root apart, whose kind is among `kinds`. -/
def nodesOfKind (kinds : List String) (tree : Json) : List Node :=
  ((below tree).filterMap Node.of?).filter fun node => kinds.contains node.kind

end ModuleGraph
