/-
# Numbers and times of TOML

Integers in base ten, or sixteen, eight and two behind a mark, have 64 bits; a
number with a point or an exponent is in double precision. A date or a time is
checked and kept as it is written.

Key definitions: `Toml.number?`.
-/
import ModuleGraph.Document
import ModuleGraph.Number.Digit

namespace ModuleGraph.Toml

/-! ### Integers and floats -/

/-- Digits that may have single underscores between them, without those; there
has to be one. -/
def digitRow? (isDigit : Char → Bool) : List Char → Option (List Char × List Char)
  | [] => none
  | c :: rest => if isDigit c then some (go [c] rest) else none
where
  go (digits : List Char) : List Char → List Char × List Char
    | '_' :: c :: rest =>
      if isDigit c then go (c :: digits) rest else (digits.reverse, '_' :: c :: rest)
    | c :: rest => if isDigit c then go (c :: digits) rest else (digits.reverse, c :: rest)
    | [] => (digits.reverse, [])

/-- The digits of a decimal integer, which begins with a zero only if it is
one. -/
def wholeRow? : List Char → Option (List Char × List Char)
  | '0' :: rest => some (['0'], rest)
  | cs => digitRow? Digit.isDecimal cs

def sign : List Char → Bool × List Char
  | '-' :: rest => (true, rest)
  | '+' :: rest => (false, rest)
  | cs => (false, cs)

def integer (negative : Bool) (n : Nat) : Option Document :=
  if negative then if n ≤ Nat.pow 2 63 then some (.signed (-n)) else none
  else if n < Nat.pow 2 63 then some (.signed n) else none

/-- An integer behind the mark of its base. -/
def based? (base : Nat) (cs : List Char) : Option (Document × List Char) := do
  let (digits, rest) ← digitRow? (Digit.isOf base) cs
  let n ← Digit.number? base digits
  let v ← integer false n
  some (v, rest)

/-- The digits behind a point, if there is one. -/
def fractionRow? : List Char → Option (List Char × List Char)
  | '.' :: cs => digitRow? Digit.isDecimal cs
  | _ => none

def exponentRow? : List Char → Option (Int × List Char)
  | c :: cs =>
    if c == 'e' || c == 'E' then do
      let (negative, cs) := sign cs
      let (digits, rest) ← digitRow? Digit.isDecimal cs
      let n : Int := Digit.natOf digits
      some (if negative then -n else n, rest)
    else none
  | [] => none

/-- A float may be too small for a number, but not too large. -/
def float? (negative : Bool) (digits : List Char) (exponent : Int) (rest : List Char) :
    Option (Document × List Char) :=
  let d := Double.ofDecimal negative (Digit.natOf digits) exponent
  if d = .infinite false then none else some (.float d, rest)

/-- A number in base ten. -/
def decimal? (negative : Bool) (cs : List Char) : Option (Document × List Char) := do
  let (whole, rest) ← wholeRow? cs
  match fractionRow? rest with
  | some (fraction, rest) =>
    match exponentRow? rest with
    | some (e, rest) => float? negative (whole ++ fraction) (e - fraction.length) rest
    | none => float? negative (whole ++ fraction) (-fraction.length) rest
  | none =>
    match exponentRow? rest with
    | some (e, rest) => float? negative whole e rest
    | none =>
      let v ← integer negative (Digit.natOf whole)
      some (v, rest)

/-! ### Dates and times -/

/-- A number of exactly `n` digits within bounds. -/
def field? (n low high : Nat) (cs : List Char) : Option (Nat × List Char) :=
  let ds := cs.take n
  if ds.length = n ∧ ds.all Digit.isDecimal ∧ low ≤ Digit.natOf ds ∧ Digit.natOf ds ≤ high then
    some (Digit.natOf ds, cs.drop n)
  else none

def mark? (c : Char) : List Char → Option (List Char)
  | d :: rest => if c == d then some rest else none
  | [] => none

def isLeap (year : Nat) : Bool := year % 4 == 0 && (year % 100 != 0 || year % 400 == 0)

def daysIn (year month : Nat) : Nat :=
  if month = 2 then if isLeap year then 29 else 28
  else if month = 4 ∨ month = 6 ∨ month = 9 ∨ month = 11 then 30
  else 31

def date? (cs : List Char) : Option (List Char) := do
  let (year, cs) ← field? 4 0 9999 cs
  let cs ← mark? '-' cs
  let (month, cs) ← field? 2 1 12 cs
  let cs ← mark? '-' cs
  let (_, cs) ← field? 2 1 (daysIn year month) cs
  some cs

def time? (cs : List Char) : Option (List Char) := do
  let (_, cs) ← field? 2 0 23 cs
  let cs ← mark? ':' cs
  let (_, cs) ← field? 2 0 59 cs
  let cs ← mark? ':' cs
  let (_, cs) ← field? 2 0 60 cs
  match cs with
  | '.' :: c :: rest =>
    if Digit.isDecimal c then some (rest.dropWhile Digit.isDecimal) else some cs
  | cs => some cs

/-- What follows the offset of a time, if it has one. -/
def zoneRest (cs : List Char) : List Char :=
  match cs with
  | 'Z' :: rest => rest
  | 'z' :: rest => rest
  | c :: rest =>
    if c == '+' || c == '-' then
      (do
        let (_, rest) ← field? 2 0 23 rest
        let rest ← mark? ':' rest
        let (_, rest) ← field? 2 0 59 rest
        some rest).getD cs
    else cs
  | [] => cs

/-- What follows a date, which may have a time. -/
def dateRest (cs : List Char) : List Char :=
  match cs with
  | c :: rest =>
    if c == 'T' || c == 't' || c == ' ' then
      match time? rest with
      | some rest => zoneRest rest
      | none => cs
    else cs
  | [] => cs

/-- Whether a text begins like a date or a time. -/
def isTimeLike (cs : List Char) : Bool :=
  (field? 4 0 9999 cs).any (fun r => r.2.head? == some '-') ||
    (field? 2 0 99 cs).any (fun r => r.2.head? == some ':')

/-- A date or a time, as a table that holds its text. -/
def moment? (cs : List Char) : Option (Document × List Char) := do
  let rest ← ((date? cs).map dateRest).orElse fun _ => time? cs
  let text := String.ofList (cs.take (cs.length - rest.length))
  some (.table [("$__toml_private_datetime", .text text)], rest)

/-! ### Numbers -/

/-- Drops a word that a text must begin with. -/
def word? (word : List Char) (cs : List Char) : Option (List Char) :=
  if word.isPrefixOf cs then some (cs.drop word.length) else none

/-- What is no number or infinite, by its word. -/
def special? (negative : Bool) (cs : List Char) : Option (Document × List Char) :=
  match word? "inf".toList cs with
  | some rest => some (.float (.infinite negative), rest)
  | none => (word? "nan".toList cs).map fun rest => (.float .nan, rest)

/-- A number, a date or a time. -/
def number? (cs : List Char) : Option (Document × List Char) :=
  match cs with
  | '0' :: 'x' :: rest => based? 16 rest
  | '0' :: 'o' :: rest => based? 8 rest
  | '0' :: 'b' :: rest => based? 2 rest
  | _ =>
    if isTimeLike cs then moment? cs
    else
      let (negative, rest) := sign cs
      match special? negative rest with
      | some r => some r
      | none => decimal? negative rest

end ModuleGraph.Toml
