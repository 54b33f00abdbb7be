/-
# Lowering

A concrete tree as plain data. A node becomes an object with its kind and its
span, a string literal also with its cooked text; the named children that are
held under a field follow under the name of the field, an array where a field
holds several; the other named children follow in an array `children`, if
there are any.

Parsing is lowering with a filter in front: the options never change a tree,
they only refuse it.

Key definitions: `lower`, `misplaced`, `accepts`, `treeBy`, `parseTree`.
-/
import ModuleGraph.Json
import ModuleGraph.Syntax.Literal
import ModuleGraph.Syntax.Options
import ModuleGraph.Syntax.Program

namespace ModuleGraph.Syntax

/-! ### Objects -/

/-- Puts a child under a field: alone, or behind those the field holds. -/
def addField (name : String) (child : Json) (members : Table String Json) :
    Table String Json :=
  match members.get? name with
  | none => members ++ [(name, child)]
  | some (.array items) => Table.put name (.array (items ++ [child])) members
  | some first => Table.put name (.array [first, child]) members

/-- What every node has. -/
def head (label : Label) (children : List Concrete) : Table String Json :=
  [("kind", .string label.kind), ("start", .int label.start), ("end", .int label.stop)] ++
    if label.kind = "string" then [("value", .string (cooked children))] else []

/-- Adds the children to a node, given with the fields they are held under. -/
def assemble (members : Table String Json) (parts : List (Option String × Json)) :
    Table String Json :=
  let members := parts.foldl (fun ms part =>
    match part.1 with
    | some name => addField name part.2 ms
    | none => ms) members
  let others := parts.filterMap fun part => if part.1.isNone then some part.2 else none
  if others.isEmpty then members else Table.put "children" (.array others) members

mutual
def lower : Concrete → Json
  | .node label children => .object (assemble (head label children) (lowerAll children))

/-- The named ones of the children, each with its field. -/
def lowerAll : List Concrete → List (Option String × Json)
  | [] => []
  | tree :: rest =>
    if tree.named then (tree.field, lower tree) :: lowerAll rest else lowerAll rest
end

/-! ### What the options refuse -/

def linkageKinds : List String := ["import_statement", "export_statement"]

/-- Whether an import or export may stand within a node of kind `parent`. -/
def Options.allowsWithin (options : Options) (parent : Option String) : Bool :=
  match options.sourceType with
  | .script => false
  | .module => parent == some "program" || options.allowImportExportEverywhere

mutual
/-- How many imports and exports stand where the options do not allow them,
of a tree within a node of kind `parent`. -/
def misplaced (options : Options) (parent : Option String) : Concrete → Nat
  | .node label children =>
    (if linkageKinds.contains label.kind && !options.allowsWithin parent then 1 else 0) +
      misplacedAll options label.kind children

def misplacedAll (options : Options) (parent : String) : List Concrete → Nat
  | [] => 0
  | tree :: rest =>
    (if tree.named then misplaced options (some parent) tree else 0) +
      misplacedAll options parent rest
end

/-- Whether the options keep what has been parsed. -/
def accepts (options : Options) (parsed : Parse) : Bool :=
  options.errorRecovery || (!parsed.hasError && misplaced options none parsed.root == 0)

/-- The lowered tree, unless the options refuse it. -/
def lowered (options : Options) (parsed : Parse) : Option Json :=
  if accepts options parsed then some (lower parsed.root) else none

/-- What reads the texts of each dialect. -/
abbrev Reader := Dialect → String → Parse

/-- The tree of a text as a reader reads it; an empty text has none. -/
def treeBy (reader : Reader) (options : Options) (text : String) : Option Json :=
  if text.isEmpty then none else lowered options (reader options.dialect text)

def parseTree (options : Options) (text : String) : Option Json := treeBy parse options text

end ModuleGraph.Syntax
