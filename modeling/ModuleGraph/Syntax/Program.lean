/-
# Programs

The rule of every construct, the knot between them, and whole texts. A text
that is no program is read as far as it goes: what cannot be read becomes a
node `ERROR`, and the reader goes on behind it, so that the statements around
a broken one are still found.

Key definitions: `ruleOf`, `read`, `Parse`, `parse`.
-/
import ModuleGraph.Syntax.Linkage
import ModuleGraph.Syntax.Element

namespace ModuleGraph.Syntax

open Rule

/-- What each construct consists of. -/
def ruleOf (read : Nonterminal → Rule) : Nonterminal → Rule
  | .statement => statement read
  | .declaration => declarationOf read
  | .block edge => block read edge
  | .expression edge resultTypes => expression read edge resultTypes
  | .operation edge strength => operation read edge strength
  | .unary edge => unary read edge
  | .callee edge => callee read edge
  | .construction edge => construction read edge
  | .primary => primary read
  | .parameters => parameters read
  | .pattern => pattern read
  | .destructuring => destructuring read
  | .element => element read
  | .classExpression => classExpression read
  | .classBody => classBody read
  | .typeTerm edge => typeTerm read edge
  | .unionType edge => unionType read edge
  | .primaryType => primaryType read

/-- Reads a construct at most once per place. -/
def remembered (construct : Nonterminal) (r : Rule) : Rule := fun s p =>
  match p.known[(construct, p.pos)]? with
  | some (some (nodes, pos)) => (some nodes, { p with pos := pos })
  | some none => (none, p)
  | none =>
    let (found, q) := r s p
    let entry := found.map fun nodes => (nodes, q.pos)
    (found, { q with known := q.known.insert (construct, p.pos) entry })

/-- Constructs that nest up to `depth` deep. -/
def read : Nat → Nonterminal → Rule
  | 0, _ => fail
  | depth + 1, construct => remembered construct (ruleOf (read depth) construct)

/-- A tree and whether the text was a program of the dialect. -/
structure Parse where
  root : Concrete
  hasError : Bool

def hashBang : Rule :=
  leafHere "hash_bang_line" true fun s i =>
    if s.startsWith ['#', '!'] i then some (s.skipWhile (fun c => !Source.isLineEnd c) i) else none

/-- Past the text that no statement begins with: up to the end of a line or
of a statement. -/
def skipBroken (s : Source) (i : Nat) : Nat :=
  s.skipWhile (fun c => c != ';' && !Source.isLineEnd c) i + 1

/-- Statements up to the end of the text, with the broken parts of it. -/
def statements (statement : Rule) (s : Scope) : Nat → Progress → List Concrete × Bool
  | 0, _ => ([], true)
  | fuel + 1, p =>
    let (comments, stop) := commentsFrom s.source (s.source.size + 1) p.pos
    if s.source.size ≤ stop then (comments, false)
    else match statement s p with
      | (some nodes, q) =>
        let (rest, broken) := statements statement s fuel q
        (nodes ++ rest, broken)
      | (none, q) =>
        let next := min (skipBroken s.source stop) s.source.size
        let error : Concrete := .node
          { kind := "ERROR", start := s.source.offset stop, stop := s.source.offset next } []
        let (rest, _) := statements statement s fuel { q with pos := next }
        (comments ++ error :: rest, true)

/-- The tree of a text. The root begins with the first token and ends with
the text. -/
def parse (dialect : Dialect) (text : String) : Parse :=
  let scope : Scope := ⟨Source.ofString text, dialect⟩
  let size := scope.source.size
  let begin : Progress := ⟨0, ∅⟩
  let (first, p) := (opt hashBang) scope begin
  let statement := read (64 * (size + 1)) .statement
  let (nodes, broken) := statements statement scope (size + 1) p
  let children := first.getD [] ++ nodes
  let stop := scope.source.offset size
  let start := (children.head?.map Concrete.start).getD stop
  ⟨.node { kind := "program", start := start, stop := stop } children, broken⟩

end ModuleGraph.Syntax
