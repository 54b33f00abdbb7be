/-
# Reading TOML

A text is a sequence of lines: a key and its value, a header, a comment, or
nothing. The answer is the table that they build up, or nothing if a line is
not well formed or what it adds may not be added.

Key definitions: `Toml.value?`, `Toml.parse?`.
-/
import ModuleGraph.Toml.Entry
import ModuleGraph.Toml.Number
import ModuleGraph.Toml.Text

namespace ModuleGraph.Toml

/-! ### Keys -/

def isBare (c : Char) : Bool := c.isAlphanum || c == '_' || c == '-'

/-- A name: bare, or a string on one line. -/
def name? (cs : List Char) : Option (String × List Char) :=
  match cs with
  | '"' :: _ => lineString? cs
  | '\'' :: _ => lineString? cs
  | _ =>
    let name := cs.takeWhile isBare
    if name.isEmpty then none else some (String.ofList name, cs.dropWhile isBare)

/-- Names with points between them, `fuel` of which there may be. -/
def names? : Nat → List Char → Option (List String × List Char)
  | 0, _ => none
  | fuel + 1, cs => do
    let (name, rest) ← name? (skipBlanks cs)
    match skipBlanks rest with
    | '.' :: rest => do
      let (names, rest) ← names? fuel rest
      some (name :: names, rest)
    | rest => some ([name], rest)

/-! ### Line ends -/

/-- What follows a comment, which may not hold a control character. -/
def commentRest? : List Char → Option (List Char)
  | '#' :: rest =>
    match rest.dropWhile isPlain with
    | [] => some []
    | rest => if (newline? rest).isSome then some rest else none
  | cs => some cs

/-- What follows the end of a line, behind blanks and a comment. -/
def lineEnd? (cs : List Char) : Option (List Char) := do
  match ← commentRest? (skipBlanks cs) with
  | [] => some []
  | rest => newline? rest

/-- What follows blanks, comments and line ends, of which there are at most
`fuel`. -/
def skipLines? : Nat → List Char → Option (List Char)
  | 0, cs => some cs
  | fuel + 1, cs => do
    let rest ← commentRest? (skipBlanks cs)
    match newline? rest with
    | some rest => skipLines? fuel rest
    | none => some rest

/-! ### Values -/

/-- The last name of a dotted key, and those before it. -/
def splitKey (names : List String) : List String × String :=
  (names.dropLast, names.getLast?.getD "")

mutual
/-- A value; `fuel` bounds the number of steps. -/
def value? : Nat → List Char → Option (Document × List Char)
  | 0, _ => none
  | fuel + 1, cs =>
    match cs with
    | '"' :: _ => (string? cs).map fun r => (.text r.1, r.2)
    | '\'' :: _ => (string? cs).map fun r => (.text r.1, r.2)
    | '[' :: rest => items? fuel [] rest
    | '{' :: rest =>
      match skipBlanks rest with
      | '}' :: rest => some (.table [], rest)
      | rest => pairs? fuel [] rest
    | 't' :: _ => (word? "true".toList cs).map fun rest => (.bool true, rest)
    | 'f' :: _ => (word? "false".toList cs).map fun rest => (.bool false, rest)
    | _ => number? cs

/-- The items of a list from one of them or its end on. -/
def items? : Nat → List Document → List Char → Option (Document × List Char)
  | 0, _, _ => none
  | fuel + 1, before, cs => do
    match ← skipLines? (cs.length + 1) cs with
    | ']' :: rest => some (.list before.reverse, rest)
    | cs => do
      let (v, rest) ← value? fuel cs
      match ← skipLines? (rest.length + 1) rest with
      | ',' :: rest => items? fuel (v :: before) rest
      | ']' :: rest => some (.list (v :: before).reverse, rest)
      | _ => none

/-- The entries of a table on one line from one of them on. -/
def pairs? : Nat → Entries → List Char → Option (Document × List Char)
  | 0, _, _ => none
  | fuel + 1, entries, cs => do
    let (names, rest) ← names? (cs.length + 1) cs
    match rest with
    | '=' :: rest => do
      let (v, rest) ← value? fuel (skipBlanks rest)
      let (path, key) := splitKey names
      let entries ← insertDotted key v path.isEmpty path entries
      match skipBlanks rest with
      | ',' :: rest => pairs? fuel entries rest
      | '}' :: rest => some ((Item.table .header entries).document, rest)
      | _ => none
    | _ => none
end

/-! ### Lines -/

/-- What has been read: the tables, and the names of the last header. -/
structure Reading where
  entries : Entries := []
  header : List String := []
  deriving Inhabited

/-- A header, from behind its first bracket. -/
def headerLine? (r : Reading) (cs : List Char) : Option (Reading × List Char) :=
  match cs with
  | '[' :: cs => do
    let (names, rest) ← names? (cs.length + 1) cs
    let (path, key) := splitKey names
    match rest with
    | ']' :: ']' :: rest => do
      let entries ← changeAt (openRow key) path r.entries
      some (⟨entries, names⟩, ← lineEnd? rest)
    | _ => none
  | cs => do
    let (names, rest) ← names? (cs.length + 1) cs
    let (path, key) := splitKey names
    match rest with
    | ']' :: rest => do
      let entries ← changeAt (openTable key) path r.entries
      some (⟨entries, names⟩, ← lineEnd? rest)
    | _ => none

/-- A key and its value. -/
def pairLine? (r : Reading) (cs : List Char) : Option (Reading × List Char) := do
  let (names, rest) ← names? (cs.length + 1) cs
  match rest with
  | '=' :: rest => do
    let (v, rest) ← value? (2 * rest.length + 2) (skipBlanks rest)
    let rest ← lineEnd? rest
    let (path, key) := splitKey names
    some ({ r with entries := ← insertAt r.header path key v r.entries }, rest)
  | _ => none

/-- One line after another, at most `fuel` of them. -/
def lines? : Nat → Reading → List Char → Option Reading
  | 0, _, _ => none
  | fuel + 1, r, cs =>
    match skipBlanks cs with
    | [] => some r
    | '[' :: rest => do
      let (r, rest) ← headerLine? r rest
      lines? fuel r rest
    | c :: rest =>
      if c == '#' || c == '\n' || c == '\r' then do
        lines? fuel r (← lineEnd? (c :: rest))
      else do
        let (r, rest) ← pairLine? r (c :: rest)
        lines? fuel r rest

/-- The table of a text, which may begin with a byte order mark. -/
def parse? (text : String) : Option (List (String × Document)) :=
  let cs := match text.toList with
    | '\ufeff' :: cs => cs
    | cs => cs
  (lines? (cs.length + 1) {} cs).map fun r => Item.documents r.entries

end ModuleGraph.Toml
