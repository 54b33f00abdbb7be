/-
# Variables of the environment

A variable whose name begins with the prefix of this program sets what its name
leads to: two underscores go down one level, and the case of letters does not
count. Its value is taken for a truth value, a number, a quoted text, a list or
a table, if all of it reads as one, and else for a text.

Key definitions: `Environment`, `Variable.read`, `Variable.layer`.
-/
import ModuleGraph.Document
import ModuleGraph.Number.Digit
import ModuleGraph.Settings.Layer

namespace ModuleGraph

/-- The names and values of variables. -/
abbrev Environment := List (String × String)

namespace Variable

/-! ### Characters -/

def isBlank (c : Char) : Bool :=
  c == ' ' || c == '\t' || c == '\n' || c == '\x0c' || c == '\r'

/-- The characters that are trimmed from a text. -/
def isSpace (c : Char) : Bool :=
  isBlank c || c == '\x0b' || c == '\x85' || c == '\xa0' || c == '\u1680' ||
    ('\u2000' ≤ c && c ≤ '\u200a') || c == '\u2028' || c == '\u2029' || c == '\u202f' ||
    c == '\u205f' || c == '\u3000'

def isSeparator (c : Char) : Bool := c == ',' || c == '{' || c == '}' || c == '[' || c == ']'

def isKeyChar (c : Char) : Bool := c.isAlphanum || c == '_' || c == '-'

def skipBlanks (cs : List Char) : List Char := cs.dropWhile isBlank

def trim (cs : List Char) : List Char :=
  ((cs.dropWhile isSpace).reverse.dropWhile isSpace).reverse

/-! ### Numbers -/

def unsigned? (cs : List Char) : Option Document :=
  let ds := match cs with
    | '+' :: ds => ds
    | ds => ds
  match Digit.number? 10 ds with
  | some n => if n < Nat.pow 2 64 then some (.unsigned n) else none
  | none => none

def signed? (cs : List Char) : Option Document :=
  match cs with
  | '-' :: ds =>
    match Digit.number? 10 ds with
    | some n => if n ≤ Nat.pow 2 63 then some (.signed (-n)) else none
    | none => none
  | _ => none

/-- The exponent of a number, which is all that is left of it. -/
def exponent? : List Char → Option Int
  | [] => some 0
  | c :: cs =>
    if c == 'e' || c == 'E' then
      match cs with
      | '-' :: ds => (Digit.number? 10 ds).map fun n => -(n : Int)
      | '+' :: ds => (Digit.number? 10 ds).map Int.ofNat
      | ds => (Digit.number? 10 ds).map Int.ofNat
    else none

/-- A number with a point. -/
def float? (cs : List Char) : Option Document := do
  let (negative, cs) := match cs with
    | '-' :: cs => (true, cs)
    | '+' :: cs => (false, cs)
    | cs => (false, cs)
  let (whole, rest) := Digit.decimals cs
  match rest with
  | '.' :: rest => do
    let (fraction, rest) := Digit.decimals rest
    let e ← exponent? rest
    let digits := whole ++ fraction
    if digits.isEmpty then none
    else some (.float (.ofDecimal negative (Digit.natOf digits) (e - fraction.length)))
  | _ => none

/-- A value without marks: a number if it reads as one. -/
def plain (cs : List Char) : Document :=
  ((((float? cs).orElse fun _ => unsigned? cs).orElse fun _ => signed? cs)).getD
    (.text (String.ofList cs))

/-! ### Quoted texts -/

/-- A character by its code in `n` digits. -/
def coded? (n : Nat) (cs : List Char) : Option (Char × List Char) :=
  let ds := cs.take n
  if ds.length < n then none else ((Digit.number? 16 ds).bind Digit.char?).map (·, cs.drop n)

/-- The rest of a quoted text; `text` is what has been read, last character
first. -/
def quotedRest? : Nat → List Char → List Char → Option (String × List Char)
  | 0, _, _ => none
  | _ + 1, _, [] => none
  | _ + 1, text, '"' :: rest => some (String.ofList text.reverse, rest)
  | fuel + 1, text, '\\' :: e :: rest =>
    match e with
    | '"' => quotedRest? fuel ('"' :: text) rest
    | '\\' => quotedRest? fuel ('\\' :: text) rest
    | 'b' => quotedRest? fuel ('\x08' :: text) rest
    | 'f' => quotedRest? fuel ('\x0c' :: text) rest
    | 'n' => quotedRest? fuel ('\n' :: text) rest
    | 'r' => quotedRest? fuel ('\r' :: text) rest
    | 't' => quotedRest? fuel ('\t' :: text) rest
    | 'u' =>
      match coded? 4 rest with
      | some (c, rest) => quotedRest? fuel (c :: text) rest
      | none => none
    | 'U' =>
      match coded? 8 rest with
      | some (c, rest) => quotedRest? fuel (c :: text) rest
      | none => none
    | _ => none
  | fuel + 1, text, c :: rest =>
    if c == '\t' || (' ' ≤ c && c != '\x7f' && c != '\\') then quotedRest? fuel (c :: text) rest
    else none

def quoted? : List Char → Option (String × List Char)
  | '"' :: rest => quotedRest? (rest.length + 1) [] rest
  | _ => none

/-! ### Values -/

def key? (cs : List Char) : Option (String × List Char) :=
  match cs with
  | '"' :: _ => quoted? cs
  | _ =>
    let name := cs.takeWhile isKeyChar
    if name.isEmpty then none else some (String.ofList name, cs.dropWhile isKeyChar)

/-- Drops a word that a text must begin with. -/
def word? (word : List Char) (cs : List Char) : Option (List Char) :=
  if word.isPrefixOf cs then some (cs.drop word.length) else none

/-- A truth value or a value without marks. -/
def scalar (cs : List Char) : Document × List Char :=
  match word? "true".toList cs with
  | some rest => (.bool true, rest)
  | none =>
    match word? "false".toList cs with
    | some rest => (.bool false, rest)
    | none =>
      (plain (trim (cs.takeWhile fun c => !isSeparator c)),
        cs.dropWhile fun c => !isSeparator c)

mutual
/-- A value with the blanks around it; `fuel` bounds the number of steps. -/
def value? : Nat → List Char → Option (Document × List Char)
  | 0, _ => none
  | fuel + 1, cs => do
    let cs := skipBlanks cs
    let (v, rest) ← match cs with
      | '{' :: rest => pairs? fuel [] rest
      | '[' :: rest => items? fuel [] rest
      | '"' :: _ => (quoted? cs).map fun r => (Document.text r.1, r.2)
      | '\'' :: c :: '\'' :: rest => some (.letter c, rest)
      | '\'' :: _ => none
      | cs => some (scalar cs)
    some (v, skipBlanks rest)

/-- The items of a list from one of them or its end on. -/
def items? : Nat → List Document → List Char → Option (Document × List Char)
  | 0, _, _ => none
  | fuel + 1, before, cs =>
    match cs with
    | ']' :: rest => some (.list before.reverse, rest)
    | cs => do
      let (v, rest) ← value? fuel cs
      match rest with
      | ',' :: rest => items? fuel (v :: before) rest
      | ']' :: rest => some (.list (v :: before).reverse, rest)
      | _ => none

/-- The entries of a table from one of them or its end on. -/
def pairs? : Nat → List (String × Document) → List Char → Option (Document × List Char)
  | 0, _, _ => none
  | fuel + 1, before, cs =>
    match cs with
    | '}' :: rest => some (.table before, rest)
    | cs => do
      let (key, rest) ← key? (skipBlanks cs)
      match skipBlanks rest with
      | '=' :: rest => do
        let (v, rest) ← value? fuel rest
        let before := Table.put key v before
        match rest with
        | ',' :: rest => pairs? fuel before rest
        | '}' :: rest => some (.table before, rest)
        | _ => none
      | _ => none
end

/-- What the value of a variable stands for. -/
def read (value : String) : Document :=
  let cs := value.toList
  match value? (2 * cs.length + 2) cs with
  | some (v, []) => v
  | _ => .text value

/-! ### Names -/

/-- What the names of variables begin with. -/
def marker : List Char := "declink_".toList

/-- Puts a character in front of the first name. -/
def inFirst (c : Char) : List (List Char) → List (List Char)
  | [] => [[c]]
  | name :: rest => (c :: name) :: rest

/-- The names in the name of a variable: two underscores in a row or a point
begin the next. -/
def levels : List Char → List (List Char)
  | '_' :: '_' :: rest => [] :: levels rest
  | '.' :: rest => [] :: levels rest
  | c :: rest => inFirst c (levels rest)
  | [] => [[]]

/-- The names on the way to what a variable sets, if it sets anything. -/
def path? (name : String) : Option (List String) :=
  let cs := name.toList.map Char.toLower
  if marker.isPrefixOf cs then
    some ((levels (cs.drop marker.length)).map String.ofList)
  else none

/-- A document below names; the first empty one ends them. -/
def nested : List String → Document → Document
  | [], v => v
  | name :: rest, v => if name.isEmpty then v else .table [(name, nested rest v)]

/-- What one variable sets. If nothing stands in front of the first separator, as
in `DECLINK___X`, the value is for no name: only a table can be taken for what is
set then. With another value the layers cannot be put together at all; there is
no answer to that here, and the variable sets nothing. -/
def layerOf (name value : String) : Document :=
  match path? name with
  | none => .table []
  | some path =>
    match nested path (read value) with
    | .table entries => .table entries
    | _ => .table []

/-- What variables set, a later one over an earlier. -/
def layer (env : Environment) : Document :=
  env.foldl (fun d v => d.overlaid (layerOf v.1 v.2)) (.table [])

end Variable

end ModuleGraph
