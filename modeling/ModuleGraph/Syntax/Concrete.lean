/-
# Concrete syntax trees

What the reader of a dialect makes of a text: a rose tree whose nodes carry
their kind, their byte span and the name, if any, under which their parent
holds them. Punctuation and keywords are nodes too, but not named ones.

Key definitions: `Label`, `Concrete`, `Concrete.kind`, `Concrete.children`.
-/

namespace ModuleGraph.Syntax

/-- What a node says about itself. `lexeme` is the text of a leaf and empty
for every other node. -/
structure Label where
  field : Option String := none
  kind : String
  named : Bool := true
  start : Nat
  stop : Nat
  lexeme : String := ""
  deriving DecidableEq, Repr, Inhabited

/-- A node and what it consists of, in the order of the text. -/
inductive Concrete where
  | node (label : Label) (children : List Concrete)
  deriving Repr, Inhabited

namespace Concrete

def label : Concrete → Label
  | node label _ => label

def children : Concrete → List Concrete
  | node _ children => children

def kind (tree : Concrete) : String := tree.label.kind

def field (tree : Concrete) : Option String := tree.label.field

def named (tree : Concrete) : Bool := tree.label.named

def start (tree : Concrete) : Nat := tree.label.start

def stop (tree : Concrete) : Nat := tree.label.stop

/-- The same node, held under `name` by its parent. -/
def underField (name : String) : Concrete → Concrete
  | node label children => node { label with field := some name } children

/-- The same node, reported as another kind. -/
def ofKind (kind : String) : Concrete → Concrete
  | node label children => node { label with kind := kind } children

/-- A comment may stand between any two tokens, so it is never held under a
field and never begins or ends another node. -/
def isComment (tree : Concrete) : Bool := tree.kind == "comment"

@[simp] theorem label_node (label : Label) (children : List Concrete) :
    (node label children).label = label := rfl

@[simp] theorem children_node (label : Label) (children : List Concrete) :
    (node label children).children = children := rfl

end Concrete

end ModuleGraph.Syntax
