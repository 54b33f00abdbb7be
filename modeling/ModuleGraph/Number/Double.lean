/-
# Numbers in double precision

A finite number is `mantissa * 2 ^ exponent` with at most 53 bits of mantissa.
A decimal is read to the nearest such number, a tie going to the even
mantissa; a number is written with the fewest digits that read back, in
positional notation or with an exponent.

Key definitions: `Double`, `Double.ofDecimal`, `Double.shortest`,
`Double.text`, `Double.scientific`.
-/

namespace ModuleGraph

inductive Double where
  | finite (negative : Bool) (mantissa : Nat) (exponent : Int)
  | infinite (negative : Bool)
  | nan
  deriving DecidableEq, Repr, Inhabited

namespace Double

def isFinite : Double → Bool
  | finite .. => true
  | _ => false

/-- `num / den`, rounded to the nearest integer, a tie to the even one. -/
def roundHalfEven (num den : Nat) : Nat :=
  let q := num / den
  let r := num % den
  if 2 * r < den then q
  else if den < 2 * r then q + 1
  else if q % 2 = 0 then q else q + 1

/-- The largest `k` with `2 ^ k ≤ num / den`. -/
def floorLog2 (num den : Nat) : Int :=
  let k : Int := (num.log2 : Int) - den.log2
  let reached : Bool := if 0 ≤ k then den * Nat.pow 2 k.toNat ≤ num
    else den ≤ num * Nat.pow 2 (-k).toNat
  if reached then k else k - 1

/-- The nearest number to `num / den`. -/
def ofRatio (negative : Bool) (num den : Nat) : Double :=
  if num = 0 then finite negative 0 (-1074)
  else
    let e := max (floorLog2 num den - 52) (-1074)
    let m := if 0 ≤ e then roundHalfEven num (den * Nat.pow 2 e.toNat)
      else roundHalfEven (num * Nat.pow 2 (-e).toNat) den
    let (m, e) := if m = Nat.pow 2 53 then (Nat.pow 2 52, e + 1) else (m, e)
    if 971 < e then infinite negative else finite negative m e

/-- The nearest number to `digits * 10 ^ exponent`. Beyond the exponents that
can matter, the answer is known without the power. -/
def ofDecimal (negative : Bool) (digits : Nat) (exponent : Int) : Double :=
  let size : Int := (Nat.toDigits 10 digits).length
  if digits = 0 then finite negative 0 (-1074)
  else if 320 < size + exponent then infinite negative
  else if size + exponent < -340 then finite negative 0 (-1074)
  else if 0 ≤ exponent then ofRatio negative (digits * Nat.pow 10 exponent.toNat) 1
  else ofRatio negative digits (Nat.pow 10 (-exponent).toNat)

/-! ### Shortest text -/

/-- The value and the ends of the interval that reads back as it, as
numerators over one denominator. -/
def interval (m : Nat) (e : Int) : Nat × Nat × Nat × Nat :=
  let scale := if 0 ≤ e then Nat.pow 2 e.toNat else 1
  let den := if 0 ≤ e then 4 else 4 * Nat.pow 2 (-e).toNat
  let below := if m = Nat.pow 2 52 ∧ -1074 < e then 1 else 2
  (4 * m * scale, (4 * m - below) * scale, (4 * m + 2) * scale, den)

/-- The decimals with `n` digits nearest to `num / den` on either side, as
digits and exponent; the value lies below `10 ^ top` and not below
`10 ^ (top - 1)`. -/
def neighbours (num den : Nat) (top : Int) (n : Nat) : Nat × Int :=
  let x := top - n
  let q := if 0 ≤ x then num / (den * Nat.pow 10 x.toNat)
    else num * Nat.pow 10 (-x).toNat / den
  (q, x)

/-- `d * 10 ^ x` as a numerator over `den * k`, with that `k`. -/
def overDen (den d : Nat) (x : Int) : Nat × Nat :=
  if 0 ≤ x then (d * Nat.pow 10 x.toNat * den, 1) else (d * den, Nat.pow 10 (-x).toNat)

/-- Which of two decimals at the same distance is written: the one further
from zero, or the one whose last digit is even. -/
inductive Tie where
  | away
  | even
  deriving DecidableEq, Repr, Inhabited

/-- Is `d` taken before `d + 1` when both are equally near? -/
def Tie.keeps : Tie → Nat → Bool
  | away, _ => false
  | even, d => d % 2 = 0

/-- The fewest digits that read back, and of those the nearest; fewer than
`n` digits have been tried without success. -/
def search (tie : Tie) (m num low high den : Nat) (top : Int) : Nat → Nat → Nat × Int
  | 0, n => neighbours num den top n
  | fuel + 1, n =>
    let (q, x) := neighbours num den top n
    let inside (d : Nat) : Bool :=
      let (v, k) := overDen den d x
      if m % 2 = 0 then low * k ≤ v && v ≤ high * k else low * k < v && v < high * k
    let distance (d : Nat) : Nat :=
      let (v, k) := overDen den d x
      (v - num * k) + (num * k - v)
    -- the upper one may be a power of ten, which a single digit writes
    let above : Nat × Int := if q + 1 = Nat.pow 10 n then (1, x + n) else (q + 1, x)
    match inside q, inside (q + 1) with
    | true, true =>
      let lower := distance q < distance (q + 1) || (distance q == distance (q + 1) && tie.keeps q)
      if lower then (q, x) else above
    | true, false => (q, x)
    | false, true => above
    | false, false => search tie m num low high den top fuel (n + 1)

/-- Counts the powers of ten up to `num / den`, from `10 ^ k` on. -/
def powersUpTo (num den : Nat) : Nat → Nat → Nat
  | 0, k => k
  | fuel + 1, k => if num < den * Nat.pow 10 k then k else powersUpTo num den fuel (k + 1)

/-- The zeros between the point and the first digit of `num / den`, from the
`k`-th place on. -/
def leadingZeros (num den : Nat) : Nat → Nat → Nat
  | 0, k => k
  | fuel + 1, k => if num * Nat.pow 10 (k + 1) < den then leadingZeros num den fuel (k + 1) else k

/-- The least `k` with `num / den < 10 ^ k`. -/
def decimalTop (num den : Nat) : Int :=
  if den ≤ num then powersUpTo num den 400 0 else -(leadingZeros num den 400 0 : Int)

/-- The shortest decimal that reads back, as digits and exponent. -/
def shortest (tie : Tie) (m : Nat) (e : Int) : Nat × Int :=
  let (num, low, high, den) := interval m e
  search tie m num low high den (decimalTop num den) 17 1

/-- `digits * 10 ^ exponent` without an exponent. -/
def positional (digits : Nat) (exponent : Int) : String :=
  let ds := Nat.toDigits 10 digits
  if 0 ≤ exponent then String.ofList (ds ++ List.replicate exponent.toNat '0')
  else
    let places := (-exponent).toNat
    let padded := List.replicate (places + 1 - ds.length) '0' ++ ds
    let cut := padded.length - places
    String.ofList (padded.take cut ++ '.' :: padded.drop cut)

/-- The shortest text in positional notation, a tie going away from zero. -/
def text : Double → String
  | nan => "NaN"
  | infinite false => "inf"
  | infinite true => "-inf"
  | finite negative m e =>
    let (digits, exponent) := if m = 0 then (0, 0) else shortest .away m e
    let sign := if negative then "-" else ""
    sign ++ positional digits exponent

/-- `digits * 10 ^ exponent` with an exponent where the positional text would
be long. -/
def compactText (digits : Nat) (exponent : Int) : String :=
  let ds := Nat.toDigits 10 digits
  let top : Int := ds.length + exponent
  if 0 ≤ exponent ∧ top ≤ 16 then positional digits exponent ++ ".0"
  else if -5 < top ∧ top ≤ 16 then positional digits exponent
  else
    let fraction := if ds.length = 1 then [] else '.' :: ds.drop 1
    String.ofList (ds.take 1 ++ fraction) ++ "e" ++ toString (top - 1)

/-- The shortest text with a point or an exponent, a tie going to the even
digit. -/
def scientific : Double → String
  | finite negative m e =>
    let (digits, exponent) := if m = 0 then (0, 0) else shortest .even m e
    (if negative then "-" else "") ++ compactText digits exponent
  | d => d.text

end Double

end ModuleGraph
