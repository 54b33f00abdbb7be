/-
# Grammar rules

A rule reads a construct at a position of a text and gives the nodes it
consists of, or refuses. Rules are combined by sequence, ordered choice and
repetition; a choice takes the first alternative that succeeds, and a refused
alternative leaves no trace but what it found out about the positions behind
it (`Progress.known`), so that a construct is read at most once per position.

Constructs refer to each other by name (`Nonterminal`); the rule of a name is
a parameter of every rule that mentions one, and the knot is tied in
`ModuleGraph.Syntax.Program`.

Key definitions: `Edge`, `Nonterminal`, `Rule`, `Rule.seq`, `Rule.choice`,
`Rule.many`, `Rule.node`, `Rule.field`, `Rule.grow`.
-/
import Std.Data.TreeMap
import ModuleGraph.Syntax.Concrete
import ModuleGraph.Syntax.Source

namespace ModuleGraph.Syntax

/-- What may end a construct without being written. `inner`: nothing, it
stands within brackets. `clause`: a semicolon, but no operator could follow.
`operand`: a semicolon, and an operator could follow. `signature`: as
`clause`, and a brace on the next line would be the body of a function. -/
inductive Edge where
  | inner
  | clause
  | operand
  | signature
  deriving DecidableEq, Ord, Repr

/-- The constructs that refer to each other. An operation is read down to the
binding strength `strength`; an expression admits result types on arrow
functions unless it is to be followed by a colon. -/
inductive Nonterminal where
  | statement
  | declaration
  | block (edge : Edge)
  | expression (edge : Edge) (resultTypes : Bool)
  | operation (edge : Edge) (strength : Nat)
  | unary (edge : Edge)
  | callee (edge : Edge)
  | construction (edge : Edge)
  | primary
  | parameters
  | pattern
  | destructuring
  | element
  | classExpression
  | classBody
  | typeTerm (edge : Edge)
  | unionType (edge : Edge)
  | primaryType
  deriving DecidableEq, Ord, Repr

/-- The text that is read and the dialect it is read in. -/
structure Scope where
  source : Source
  dialect : Dialect

/-- Constructs at places in the order of the places. -/
def placeOrder (a b : Nonterminal × Nat) : Ordering :=
  (compare a.2 b.2).then (compare a.1 b.1)

/-- Where the reader is, and what it knows of the constructs at other places:
the nodes and the position behind them, or that there is no such construct. -/
structure Progress where
  pos : Nat
  known : Std.TreeMap (Nonterminal × Nat) (Option (List Concrete × Nat)) placeOrder

/-- Reads some nodes at a position, or refuses. -/
def Rule := Scope → Progress → Option (List Concrete) × Progress

namespace Rule

def fail : Rule := fun _ p => (none, p)

/-- Reads nothing. -/
def done : Rule := fun _ p => (some [], p)

def gives (nodes : List Concrete) : Rule := fun _ p => (some nodes, p)

/-- Reads nothing, where the condition holds. -/
def guard (condition : Scope → Nat → Bool) : Rule := fun s p =>
  if condition s p.pos then (some [], p) else (none, p)

def forDialect (f : Dialect → Rule) : Rule := fun s p => f s.dialect s p

/-- A rule of the dialects with types. -/
def typed (r : Rule) : Rule := forDialect fun d => if d.isTyped then r else fail

/-- Reads `r` and then what its nodes ask for. -/
def bind (r : Rule) (next : List Concrete → Rule) : Rule := fun s p =>
  match r s p with
  | (some nodes, p) => next nodes s p
  | (none, p) => (none, p)

def andThen (r r' : Rule) : Rule :=
  r.bind fun nodes => r'.bind fun nodes' => gives (nodes ++ nodes')

def seq : List Rule → Rule
  | [] => done
  | [r] => r
  | r :: rs => r.andThen (seq rs)

def orElse (r r' : Rule) : Rule := fun s p =>
  match r s p with
  | (some nodes, q) => (some nodes, q)
  | (none, q) => r' s { q with pos := p.pos }

def choice : List Rule → Rule
  | [] => fail
  | [r] => r
  | r :: rs => r.orElse (choice rs)

def opt (r : Rule) : Rule := r.orElse done

/-- Succeeds where `r` does, but reads nothing. -/
def peek (r : Rule) : Rule := fun s p =>
  match r s p with
  | (some _, q) => (some [], { q with pos := p.pos })
  | (none, q) => (none, { q with pos := p.pos })

/-- Succeeds where `r` does not, and reads nothing. -/
def absent (r : Rule) : Rule := fun s p =>
  match r s p with
  | (some _, q) => (none, { q with pos := p.pos })
  | (none, q) => (some [], { q with pos := p.pos })

/-- Up to `fuel` times `r`, as long as it reads something. -/
def repeated (r : Rule) : Nat → Rule
  | 0 => done
  | fuel + 1 => fun s p =>
    match r s p with
    | (some nodes, q) =>
      if p.pos < q.pos then
        match repeated r fuel s q with
        | (some rest, q) => (some (nodes ++ rest), q)
        | (none, q) => (some nodes, q)
      else (some nodes, q)
    | (none, q) => (some [], { q with pos := p.pos })

/-- As often as possible; each round reads a character at least. -/
def many (r : Rule) : Rule := fun s p => repeated r (s.source.size + 1 - p.pos) s p

def many1 (r : Rule) : Rule := r.andThen (many r)

/-- Extends what has been read on its left as often as possible. -/
def growing (step : List Concrete → Rule) : Nat → List Concrete → Rule
  | 0, left => gives left
  | fuel + 1, left => fun s p =>
    match step left s p with
    | (some nodes, q) => growing step fuel nodes s q
    | (none, q) => (some left, { q with pos := p.pos })

def grow (r : Rule) (step : List Concrete → Rule) : Rule :=
  r.bind fun left s p => growing step (s.source.size + 1 - p.pos) left s p

/-! ### Nodes -/

/-- A node over the children, whose leading comments stay before it. -/
def enclose (kind : String) (children : List Concrete) : List Concrete :=
  let comments := children.takeWhile Concrete.isComment
  match children.dropWhile Concrete.isComment with
  | [] => comments
  | first :: rest =>
    let last := (rest.getLast?).getD first
    comments ++ [.node { kind := kind, start := first.start, stop := last.stop } (first :: rest)]

def node (kind : String) (rules : List Rule) : Rule :=
  (seq rules).bind fun nodes => gives (enclose kind nodes)

/-- Puts the nodes, comments apart, under a field of their parent. -/
def labelled (name : String) (nodes : List Concrete) : List Concrete :=
  nodes.map fun tree => if tree.isComment then tree else tree.underField name

def field (name : String) (r : Rule) : Rule := r.bind fun nodes => gives (labelled name nodes)

/-- Reports what `r` reads as another kind. -/
def renamed (kind : String) (r : Rule) : Rule := r.bind fun nodes =>
  gives (nodes.map fun tree => if tree.isComment then tree else tree.ofKind kind)

/-- A larger node whose first part has been read: it is held under `name`. -/
def extend (kind name : String) (left : List Concrete) (rules : List Rule) : Rule :=
  (seq rules).bind fun nodes => gives (enclose kind (labelled name left ++ nodes))

/-- As `extend`, with the first part under no field. -/
def extendBare (kind : String) (left : List Concrete) (rules : List Rule) : Rule :=
  (seq rules).bind fun nodes => gives (enclose kind (left ++ nodes))

/-- Reads `r` where it gives a node of one of the kinds. -/
def only (kinds : List String) (r : Rule) : Rule := r.bind fun nodes =>
  match nodes.getLast? with
  | some tree => if kinds.contains tree.kind then gives nodes else fail
  | none => fail

end Rule

end ModuleGraph.Syntax
