/-
# Digits

The value of a digit in a base of at most sixteen, and of a row of them; the
character that a code stands for.

Key definitions: `Digit.value?`, `Digit.number?`, `Digit.char?`.
-/

namespace ModuleGraph.Digit

def isDecimal (c : Char) : Bool := '0' ≤ c && c ≤ '9'

/-- The value of a digit, of a letter from ten on. -/
def value? (c : Char) : Option Nat :=
  if '0' ≤ c ∧ c ≤ '9' then some (c.toNat - '0'.toNat)
  else if 'a' ≤ c ∧ c ≤ 'f' then some (c.toNat - 'a'.toNat + 10)
  else if 'A' ≤ c ∧ c ≤ 'F' then some (c.toNat - 'A'.toNat + 10)
  else none

def isOf (base : Nat) (c : Char) : Bool :=
  match value? c with
  | some d => d < base
  | none => false

/-- The number that digits stand for; there has to be a digit, and no other
character. -/
def number? (base : Nat) (cs : List Char) : Option Nat :=
  if cs.isEmpty then none
  else cs.foldlM (fun n c => do
    let d ← value? c
    if d < base then some (n * base + d) else none) 0

/-- The number that decimal digits stand for; no digits stand for zero. -/
def natOf (cs : List Char) : Nat := (number? 10 cs).getD 0

/-- The character with a code, unless it is the code of none. -/
def char? (code : Nat) : Option Char :=
  if code.isValidChar then some (Char.ofNat code) else none

/-- The digits that a text begins with, and the rest. -/
def decimals (cs : List Char) : List Char × List Char :=
  (cs.takeWhile isDecimal, cs.dropWhile isDecimal)

end ModuleGraph.Digit
