/-
# Layers

Settings come in layers, each laid over the one below: a table is laid over a
table name by name, and anything else hides what is below it.

Key definitions: `Document.overlaid`, `Document.sorted`.
-/
import ModuleGraph.Document
import ModuleGraph.Table

namespace ModuleGraph.Document

mutual
/-- A document with another laid over it. -/
def overlaid (below : Document) : Document → Document
  | table entries =>
    match below with
    | table under => table (overlaidAll under entries)
    | _ => table (overlaidAll [] entries)
  | v => v

def overlaidAll (under : List (String × Document)) :
    List (String × Document) → List (String × Document)
  | [] => under
  | (name, v) :: rest =>
    let v := overlaid ((Table.get? under name).getD empty) v
    overlaidAll (Table.put name v under) rest
end

/-- Entries in the order of their names. -/
def inOrder (entries : List (String × Document)) : List (String × Document) :=
  entries.mergeSort fun e e' => e.1 ≤ e'.1

mutual
/-- A document whose tables are in the order of their names. -/
def sorted : Document → Document
  | table entries => table (inOrder (sortedAll entries))
  | list items => list (sortedItems items)
  | v => v

/-- Entries whose values are sorted. -/
def sortedAll : List (String × Document) → List (String × Document)
  | [] => []
  | (name, v) :: rest => (name, sorted v) :: sortedAll rest

def sortedItems : List Document → List Document
  | [] => []
  | v :: rest => sorted v :: sortedItems rest
end

/-- The entries of a sorted table. -/
def sortedEntries (entries : List (String × Document)) : List (String × Document) :=
  inOrder (sortedAll entries)

theorem sortedEntries_nil : sortedEntries [] = [] := List.mergeSort_nil

end ModuleGraph.Document
