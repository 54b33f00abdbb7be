/-
# Reading documents

Readers take a document for a value of a certain kind or say what is wrong
with it. A record is read from a table, entry by entry in the order of the
table, or from a list of its fields; entries that it has no field for are
passed over, and a field that is missing keeps its default, if it has one.

Key definitions: `Document.Reader`, `Document.Field`, `Document.record`,
`Document.variant`.
-/
import ModuleGraph.Document

namespace ModuleGraph.Document

abbrev Reader (α : Type) := Document → Except Mismatch α

def wrongType {α : Type} (found : Document) (expected : String) : Except Mismatch α :=
  .error { fault := .wrongType found expected }

/-! ### Scalars -/

def truth : Reader Bool
  | bool b => .ok b
  | v => wrongType v "a boolean"

def string : Reader String
  | text s => .ok s
  | letter c => .ok (String.singleton c)
  | v => wrongType v "a string"

/-- A natural number below a limit, by the name of its kind. -/
def natural (kind : String) (limit : Nat) : Reader Nat
  | unsigned n =>
    if n < limit then .ok n else .error { fault := .wrongValue (unsigned n) kind }
  | signed n =>
    if 0 ≤ n ∧ n < limit then .ok n.toNat else .error { fault := .wrongValue (signed n) kind }
  | v => wrongType v kind

def natural32 : Reader Nat := natural "u32" (Nat.pow 2 32)

def offset : Reader Nat := natural "usize" (Nat.pow 2 64)

def optional {α : Type} (read : Reader α) : Reader (Option α)
  | empty => .ok none
  | v => (read v).map some

def listOf {α : Type} (read : Reader α) : Reader (List α)
  | list items => items.mapM read
  | v => wrongType v "a sequence"

/-! ### Variants -/

/-- A set of names, each with what it stands for. -/
structure Variants (α : Type) where
  typeName : String
  all : List α
  id : α → String

namespace Variants

variable {α : Type}

def named (vs : Variants α) (name : String) : Except Mismatch α :=
  match vs.all.find? fun a => vs.id a == name with
  | some a => .ok a
  | none => .error { fault := .unknownVariant name (vs.all.map vs.id) }

/-- A variant in a table holds nothing of its own. -/
def holding (vs : Variants α) (name : String) (content : Document) : Except Mismatch α := do
  let a ← vs.named name
  match content with
  | empty => .ok a
  | v => .error (({ fault := .wrongType v "unit" } : Mismatch).under name)

end Variants

def variant {α : Type} (origin : Origin) (vs : Variants α) : Reader α
  | text name => vs.named name
  | table [] =>
    match origin with
    | .json => .error { fault := .wrongValue (table []) "map with a single key" }
    | .settings => wrongType (table []) "enum"
  | table ((name, content) :: rest) =>
    match origin with
    | .json =>
      if rest.isEmpty then vs.holding name content
      else .error { fault := .wrongValue (table []) "map with a single key" }
    | .settings => vs.holding name content
  | v =>
    match origin with
    | .json => wrongType v "string or map"
    | .settings => wrongType v ("enum " ++ vs.typeName)

/-! ### Records -/

/-- A field of a record: how its document changes the record. -/
structure Field (ρ : Type) where
  name : String
  required : Bool := false
  read : Document → Except Mismatch (ρ → ρ)

/-- The field that a reader fills in. -/
def Field.of {ρ α : Type} (name : String) (read : Reader α) (set : α → ρ → ρ) : Field ρ :=
  { name, read := fun v => (read v).map set }

/-- The same field, without a default. -/
def Field.needed {ρ : Type} (f : Field ρ) : Field ρ := { f with required := true }

section
variable {ρ : Type}

/-- Reads the entries of a table one after another into a record. -/
def readEntries (fields : List (Field ρ)) : ρ → List (String × Document) → Except Mismatch ρ
  | r, [] => .ok r
  | r, (name, v) :: rest =>
    match fields.find? fun f => f.name == name with
    | none => readEntries fields r rest
    | some f =>
      match f.read v with
      | .ok change => readEntries fields (change r) rest
      | .error m => .error (m.under name)

/-- Reads the items of a list into the fields of a record, in order. -/
def readItems (expected : String) : ρ → Nat → List (Field ρ) → List Document → Except Mismatch ρ
  | r, _, [], _ => .ok r
  | r, n, f :: fields, [] =>
    if f.required then .error { fault := .wrongLength n expected }
    else readItems expected r n fields []
  | r, n, f :: fields, v :: items =>
    match f.read v with
    | .ok change => readItems expected (change r) (n + 1) fields items
    | .error m => .error m

/-- The first field without a default that a table does not have. -/
def missing? (fields : List (Field ρ)) (entries : List (String × Document)) : Option String :=
  (fields.find? fun f => f.required && !(Table.keys entries).contains f.name).map Field.name

/-- What a list that is too short for a record was expected to be. -/
def shape (typeName : String) (fields : List (Field ρ)) : String :=
  "struct " ++ typeName ++ " with " ++ toString fields.length ++
    (if fields.length = 1 then " element" else " elements")

def record (origin : Origin) (typeName : String) (fields : List (Field ρ)) (start : ρ) :
    Reader ρ
  | table entries => do
    let r ← readEntries fields start entries
    match missing? fields entries with
    | some name => .error { fault := .missingField name }
    | none => .ok r
  | list items => do
    let r ← readItems (shape typeName fields) start 0 fields items
    if origin = .json ∧ fields.length < items.length then
      .error { fault := .wrongLength items.length "fewer elements in array" }
    else .ok r
  | v => wrongType v ("struct " ++ typeName)

end

end ModuleGraph.Document
