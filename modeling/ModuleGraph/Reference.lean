/-
# Module references

The places at which a text names another module: imports, re-exports and
required modules. A reference is the cooked text of the literal with the span
of the literal itself; an empty text names nothing.

Key definitions: `Reference`, `Reference.ofDeclaration?`, `references`.
-/
import ModuleGraph.Tree

namespace ModuleGraph

/-- What a declaration names, and where its literal stands. -/
structure Reference where
  value : String
  start : Nat
  stop : Nat
  deriving DecidableEq, Repr, Inhabited

/-- The kinds of declarations that can name a module. -/
def referringKinds : List String :=
  ["import_statement", "export_statement", "import_require_clause"]

namespace Reference

/-- The reference of a literal: its cooked text and its span. -/
def ofLiteral? (literal : Node) : Option Reference :=
  match literal.field? "value" with
  | some (.string value) =>
    if value.isEmpty then none else some ⟨value, literal.start, literal.stop⟩
  | _ => none

/-- The first string literal among the children without a field. -/
def firstLiteral? (declaration : Node) : Option Node :=
  match declaration.field? "children" with
  | some (.array items) => (items.filterMap Node.of?).find? fun node => node.kind == "string"
  | _ => none

/-- The literal that names the module of a declaration. -/
def literal? (declaration : Node) : Option Node :=
  match declaration.child? "source" with
  | some literal => some literal
  | none =>
    if declaration.kind = "import_require_clause" then firstLiteral? declaration else none

def ofDeclaration? (declaration : Node) : Option Reference :=
  (literal? declaration).bind ofLiteral?

end Reference

/-- The references of a tree, in the order of the text. -/
def references (tree : Json) : List Reference :=
  (nodesOfKind referringKinds tree).filterMap Reference.ofDeclaration?

end ModuleGraph
