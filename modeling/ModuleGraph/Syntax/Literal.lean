/-
# Cooked text of string literals

The text that a literal stands for: its fragments as they are written, and a
character for each escape. An escape whose code is no character, such as a
lone surrogate, is kept as it is written.

Key definitions: `cookedEscape`, `cooked`.
-/
import ModuleGraph.Number.Digit
import ModuleGraph.Syntax.Concrete

namespace ModuleGraph.Syntax

def withoutBraces (cs : List Char) : List Char :=
  ((cs.dropWhile (· == '{')).reverse.dropWhile (· == '}')).reverse

/-- What an escape stands for, given what follows its backslash. -/
def decoded? : List Char → Option (List Char)
  | [] => some []
  | 'n' :: _ => some ['\n']
  | 't' :: _ => some ['\t']
  | 'r' :: _ => some ['\r']
  | 'b' :: _ => some ['\x08']
  | 'f' :: _ => some ['\x0c']
  | 'v' :: _ => some ['\x0b']
  | 'x' :: code => ((Digit.number? 16 code).bind Digit.char?).map ([·])
  | 'u' :: code => ((Digit.number? 16 (withoutBraces code)).bind Digit.char?).map ([·])
  | c :: rest =>
    if '0' ≤ c ∧ c ≤ '7' then ((Digit.number? 8 (c :: rest)).bind Digit.char?).map ([·])
    else if c = '\n' ∨ c = '\r' ∨ c = '\u2028' ∨ c = '\u2029' then some []
    else if rest.isEmpty then some [c] else none

def cookedEscape (escape : List Char) : List Char :=
  let body := match escape with
    | '\\' :: body => body
    | body => body
  (decoded? body).getD escape

/-- What a piece of a literal adds to its text. -/
def cookedPiece (piece : Concrete) : List Char :=
  if piece.kind = "string_fragment" then piece.label.lexeme.toList
  else if piece.kind = "escape_sequence" then cookedEscape piece.label.lexeme.toList
  else []

/-- The text of a literal, from its named pieces. -/
def cooked (pieces : List Concrete) : String :=
  String.ofList ((pieces.filter Concrete.named).flatMap cookedPiece)

end ModuleGraph.Syntax
