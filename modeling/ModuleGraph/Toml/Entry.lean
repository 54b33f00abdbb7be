/-
# Tables of TOML

The tables that a text builds up. A table comes about by a header of its own,
on the way to the table of another header, or by a dotted key, and what may be
added to it later depends on that: a header names a table once, a dotted key
extends only tables of dotted keys, and a value is never extended.

Key definitions: `Toml.Item`, `Toml.insertDotted`, `Toml.openTable`,
`Toml.openRow`, `Toml.Item.document`.
-/
import ModuleGraph.Document
import ModuleGraph.Table

namespace ModuleGraph.Toml

/-- How a table has come about. -/
inductive Making where
  /-- By a header. -/
  | header
  /-- On the way to the table of a header. -/
  | implied
  /-- By a dotted key. -/
  | dotted
  deriving DecidableEq, Repr, Inhabited

inductive Item where
  | value (v : Document)
  | table (making : Making) (entries : List (String × Item))
  /-- Tables that share a name, each behind a header. -/
  | rows (tables : List (List (String × Item)))
  deriving Inhabited

abbrev Entries := List (String × Item)

/-- Changes the last of a list. -/
def changeLast {α : Type} (change : α → Option α) : List α → Option (List α)
  | [] => none
  | [a] => (change a).map ([·])
  | a :: rest => (changeLast change rest).map (a :: ·)

/-- Puts a value under a dotted key of a table; `dotted` says whether the table
itself came about by the key. -/
def insertDotted (key : String) (v : Document) : Bool → List String → Entries → Option Entries
  | dotted, [], entries =>
    if !dotted then none
    else match Table.get? entries key with
      | none => some (entries ++ [(key, .value v)])
      | some _ => none
  | _, name :: path, entries =>
    match Table.get? entries name with
    | none => do
      let below ← insertDotted key v true path []
      some (entries ++ [(name, .table .dotted below)])
    | some (.value _) => none
    | some (.table .header _) => none
    | some (.table making below) => do
      let below ← insertDotted key v (making == .dotted) path below
      some (Table.put name (.table making below) entries)
    | some (.rows tables) => do
      let tables ← changeLast (insertDotted key v false path) tables
      some (Table.put name (.rows tables) entries)

/-- Changes the table that a header's names lead to: the tables on the way are
made if they are missing. -/
def changeAt (change : Entries → Option Entries) : List String → Entries → Option Entries
  | [], entries => change entries
  | name :: path, entries =>
    match Table.get? entries name with
    | none => do
      let below ← changeAt change path []
      some (entries ++ [(name, .table .implied below)])
    | some (.value _) => none
    | some (.table making below) => do
      let below ← changeAt change path below
      some (Table.put name (.table making below) entries)
    | some (.rows tables) => do
      let tables ← changeLast (changeAt change path) tables
      some (Table.put name (.rows tables) entries)

/-- Opens a table by its header. -/
def openTable (key : String) (entries : Entries) : Option Entries :=
  match Table.get? entries key with
  | none => some (entries ++ [(key, .table .header [])])
  | some (.table .implied below) => some (Table.put key (.table .header below) entries)
  | some _ => none

/-- Opens another of the tables that share a name. -/
def openRow (key : String) (entries : Entries) : Option Entries :=
  match Table.get? entries key with
  | none => some (entries ++ [(key, .rows [[]])])
  | some (.rows tables) => some (Table.put key (.rows (tables ++ [[]])) entries)
  | some _ => none

/-- Puts a value under a dotted key, seen from a header. -/
def insertAt (header path : List String) (key : String) (v : Document) (entries : Entries) :
    Option Entries :=
  changeAt (insertDotted key v path.isEmpty path) header entries

namespace Item

mutual
def document : Item → Document
  | value v => v
  | table _ entries => .table (documents entries)
  | rows tables => .list (documentRows tables)

def documents : List (String × Item) → List (String × Document)
  | [] => []
  | (name, item) :: rest => (name, document item) :: documents rest

def documentRows : List (List (String × Item)) → List Document
  | [] => []
  | entries :: rest => .table (documents entries) :: documentRows rest
end

end Item

end ModuleGraph.Toml
