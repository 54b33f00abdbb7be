/-
# Reading JSON

A strict reader: no comments, no byte order mark, nothing behind the value, no
control characters in strings, no escapes of lone surrogates, no number
beyond double precision. Nesting is limited by the caller.

An integer between `-2^63` and `2^64 - 1` stays one; a larger one, a negative
zero and every number with a point or an exponent is a `Double`. Of two
members with one name the last counts.

Key definitions: `Json.parse?`.
-/
import ModuleGraph.Json
import ModuleGraph.Number.Digit

namespace ModuleGraph.Json

def isBlank (c : Char) : Bool := c == ' ' || c == '\t' || c == '\n' || c == '\r'

def skipBlanks (cs : List Char) : List Char := cs.dropWhile isBlank

/-! ### Numbers -/

/-- The fraction of a number: its digits, if there is a point. -/
def fraction? : List Char → Option (List Char × List Char)
  | '.' :: cs =>
    match Digit.decimals cs with
    | ([], _) => none
    | (ds, rest) => some (ds, rest)
  | cs => some ([], cs)

/-- The exponent of a number, with whether there is one. -/
def exponent? (cs : List Char) : Option (Bool × Int × List Char) :=
  match cs with
  | c :: rest =>
    if c == 'e' || c == 'E' then
      let (negative, rest) := match rest with
        | '-' :: r => (true, r)
        | '+' :: r => (false, r)
        | r => (false, r)
      match Digit.decimals rest with
      | ([], _) => none
      | (ds, rest) => some (true, if negative then -(Digit.natOf ds : Int) else Digit.natOf ds, rest)
    else some (false, 0, cs)
  | [] => some (false, 0, [])

/-- The value of an integer that is written without point and exponent. -/
def ofInteger (negative : Bool) (n : Nat) : Option Json :=
  if negative then
    if 0 < n ∧ n ≤ Nat.pow 2 63 then some (int (-n))
    else let d := Double.ofDecimal true n 0; if d.isFinite then some (float d) else none
  else if n < Nat.pow 2 64 then some (int n)
  else let d := Double.ofDecimal false n 0; if d.isFinite then some (float d) else none

def number? (cs : List Char) : Option (Json × List Char) := do
  let (negative, cs) := match cs with
    | '-' :: r => (true, r)
    | r => (false, r)
  let (whole, rest) := Digit.decimals cs
  if whole.isEmpty || (whole.head? == some '0' && 1 < whole.length) then none
  else
    let (frac, rest') ← fraction? rest
    let (scaled, exponent, rest'') ← exponent? rest'
    if frac.isEmpty && !scaled then (ofInteger negative (Digit.natOf whole)).map (·, rest'')
    else
      let d := Double.ofDecimal negative (Digit.natOf (whole ++ frac)) (exponent - frac.length)
      if d.isFinite then some (float d, rest'') else none

/-! ### Strings -/

/-- A code unit of four digits. -/
def unit? (cs : List Char) : Option (Nat × List Char) :=
  let ds := cs.take 4
  if ds.length < 4 then none else (Digit.number? 16 ds).map (·, cs.drop 4)

/-- The character of an escape by code units, the first of them read. A high
surrogate needs a low one behind it, and a low one needs a high one before. -/
def escaped? (unit : Nat) (rest : List Char) : Option (Char × List Char) :=
  if 0xD800 ≤ unit ∧ unit < 0xDC00 then
    match rest with
    | '\\' :: 'u' :: rest =>
      match unit? rest with
      | some (low, rest) =>
        if 0xDC00 ≤ low ∧ low < 0xE000 then
          some (Char.ofNat (0x10000 + (unit - 0xD800) * 0x400 + (low - 0xDC00)), rest)
        else none
      | none => none
    | _ => none
  else if 0xDC00 ≤ unit ∧ unit < 0xE000 then none
  else some (Char.ofNat unit, rest)

/-- The rest of a string behind its opening quote; `text` is what has been
read, last character first. -/
def stringRest? : Nat → List Char → List Char → Option (String × List Char)
  | 0, _, _ => none
  | fuel + 1, text, cs =>
    match cs with
    | [] => none
    | '"' :: rest => some (String.ofList text.reverse, rest)
    | '\\' :: e :: rest =>
      match e with
      | '"' => stringRest? fuel ('"' :: text) rest
      | '\\' => stringRest? fuel ('\\' :: text) rest
      | '/' => stringRest? fuel ('/' :: text) rest
      | 'b' => stringRest? fuel ('\x08' :: text) rest
      | 'f' => stringRest? fuel ('\x0c' :: text) rest
      | 'n' => stringRest? fuel ('\n' :: text) rest
      | 'r' => stringRest? fuel ('\r' :: text) rest
      | 't' => stringRest? fuel ('\t' :: text) rest
      | 'u' =>
        match unit? rest with
        | some (unit, rest) =>
          match escaped? unit rest with
          | some (c, rest) => stringRest? fuel (c :: text) rest
          | none => none
        | none => none
      | _ => none
    | c :: rest => if c < ' ' || c == '\\' then none else stringRest? fuel (c :: text) rest

def string? (cs : List Char) : Option (String × List Char) :=
  match cs with
  | '"' :: rest => stringRest? (rest.length + 1) [] rest
  | _ => none

/-! ### Values -/

/-- Drops a word that the text must begin with. -/
def literal? (word : List Char) (value : Json) (cs : List Char) : Option (Json × List Char) :=
  if word.isPrefixOf cs then some (value, cs.drop word.length) else none

mutual
/-- A value with at most `depth` containers around its parts; `fuel` bounds
the number of steps. -/
def value? : Nat → Nat → List Char → Option (Json × List Char)
  | 0, _, _ => none
  | fuel + 1, depth, cs =>
    match cs with
    | 'n' :: _ => literal? "null".toList null cs
    | 't' :: _ => literal? "true".toList (bool true) cs
    | 'f' :: _ => literal? "false".toList (bool false) cs
    | '"' :: _ => (string? cs).map fun r => (string r.1, r.2)
    | '[' :: rest =>
      match depth with
      | 0 => none
      | depth + 1 =>
        match skipBlanks rest with
        | ']' :: rest => some (array [], rest)
        | rest => items? fuel depth [] rest
    | '{' :: rest =>
      match depth with
      | 0 => none
      | depth + 1 =>
        match skipBlanks rest with
        | '}' :: rest => some (object [], rest)
        | rest => members? fuel depth [] rest
    | _ => number? cs

/-- The items of an array from one of them on, with those before it. -/
def items? : Nat → Nat → List Json → List Char → Option (Json × List Char)
  | 0, _, _, _ => none
  | fuel + 1, depth, before, cs =>
    match value? fuel depth (skipBlanks cs) with
    | none => none
    | some (v, rest) =>
      match skipBlanks rest with
      | ',' :: rest => items? fuel depth (v :: before) rest
      | ']' :: rest => some (array (v :: before).reverse, rest)
      | _ => none

/-- The members of an object from one of them on, with those before it. -/
def members? : Nat → Nat → List (String × Json) → List Char → Option (Json × List Char)
  | 0, _, _, _ => none
  | fuel + 1, depth, before, cs =>
    match string? (skipBlanks cs) with
    | none => none
    | some (name, rest) =>
      match skipBlanks rest with
      | ':' :: rest =>
        match value? fuel depth (skipBlanks rest) with
        | none => none
        | some (v, rest) =>
          match skipBlanks rest with
          | ',' :: rest => members? fuel depth ((name, v) :: before) rest
          | '}' :: rest => some (ofPairs ((name, v) :: before).reverse, rest)
          | _ => none
      | _ => none
end

/-- The value of a whole text with at most `depth` nested containers. -/
def parse? (depth : Nat) (text : String) : Option Json :=
  let cs := skipBlanks text.toList
  match value? (2 * cs.length + 2) depth cs with
  | some (v, rest) => if (skipBlanks rest).isEmpty then some v else none
  | none => none

end ModuleGraph.Json
