/-
# Strings of TOML

The four notations of a string: basic, with escapes, and literal, without,
each on one line or between tripled quotes on several.

A string is written in the plainest notation that shows it: basic, if nothing
in it needs an escape, then literal, then the ones on several lines, and as a
last resort with escapes.

Key definitions: `Toml.string?`, `Toml.writeString`.
-/
import ModuleGraph.Number.Digit

namespace ModuleGraph.Toml

/-! ### Characters -/

def isBlank (c : Char) : Bool := c == ' ' || c == '\t'

/-- The characters that may stand in a string or a comment as they are. -/
def isPlain (c : Char) : Bool := c == '\t' || (' ' ≤ c && c != '\x7f')

def skipBlanks (cs : List Char) : List Char := cs.dropWhile isBlank

/-- What follows a line feed, alone or behind a carriage return. -/
def newline? : List Char → Option (List Char)
  | '\n' :: rest => some rest
  | '\r' :: '\n' :: rest => some rest
  | _ => none

/-! ### Reading -/

/-- A character by its code in `n` digits. -/
def coded? (n : Nat) (cs : List Char) : Option (Char × List Char) :=
  let ds := cs.take n
  if ds.length < n then none else ((Digit.number? 16 ds).bind Digit.char?).map (·, cs.drop n)

/-- What an escape stands for, from behind its backslash. -/
def escape? : List Char → Option (Char × List Char)
  | '"' :: rest => some ('"', rest)
  | '\\' :: rest => some ('\\', rest)
  | 'b' :: rest => some ('\x08', rest)
  | 'f' :: rest => some ('\x0c', rest)
  | 'n' :: rest => some ('\n', rest)
  | 'r' :: rest => some ('\r', rest)
  | 't' :: rest => some ('\t', rest)
  | 'u' :: rest => coded? 4 rest
  | 'U' :: rest => coded? 8 rest
  | _ => none

/-- The rest of a string on one line; `text` is what has been read, last
character first. -/
def lineRest? (quote : Char) (escapes : Bool) : Nat → List Char → List Char →
    Option (String × List Char)
  | 0, _, _ => none
  | _ + 1, _, [] => none
  | fuel + 1, text, c :: rest =>
    if c == quote then some (String.ofList text.reverse, rest)
    else if c == '\\' && escapes then
      match escape? rest with
      | some (c, rest) => lineRest? quote escapes fuel (c :: text) rest
      | none => none
    else if isPlain c then lineRest? quote escapes fuel (c :: text) rest
    else none

/-- What follows blanks and line ends, of which there are at most `fuel`. -/
def skipSpace : Nat → List Char → List Char
  | 0, cs => cs
  | fuel + 1, cs =>
    match newline? (skipBlanks cs) with
    | some rest => skipSpace fuel rest
    | none => skipBlanks cs

/-- The rest of a string on several lines. Up to two quotes in a row belong to
it, also before those that close it; a backslash at the end of a line joins
the line with the next that is not blank. -/
def linesRest? (quote : Char) (escapes : Bool) : Nat → List Char → List Char →
    Option (String × List Char)
  | 0, _, _ => none
  | _ + 1, _, [] => none
  | fuel + 1, text, c :: rest =>
    if c == quote then
      let n := min 5 (1 + (rest.takeWhile (· == quote)).length)
      if 3 ≤ n then
        some (String.ofList (List.replicate (n - 3) quote ++ text).reverse, rest.drop (n - 1))
      else linesRest? quote escapes fuel (List.replicate n quote ++ text) (rest.drop (n - 1))
    else if c == '\\' && escapes then
      match newline? (skipBlanks rest) with
      | some rest => linesRest? quote escapes fuel text (skipSpace (rest.length + 1) rest)
      | none =>
        match escape? rest with
        | some (c, rest) => linesRest? quote escapes fuel (c :: text) rest
        | none => none
    else
      match newline? (c :: rest) with
      | some rest => linesRest? quote escapes fuel ('\n' :: text) rest
      | none => if isPlain c then linesRest? quote escapes fuel (c :: text) rest else none

/-- A string on one line. -/
def lineString? : List Char → Option (String × List Char)
  | '"' :: rest => lineRest? '"' true (rest.length + 1) [] rest
  | '\'' :: rest => lineRest? '\'' false (rest.length + 1) [] rest
  | _ => none

/-- A string on several lines: a line end right behind its quotes is not part
of it. -/
def linesString? (quote : Char) (rest : List Char) : Option (String × List Char) :=
  let rest := (newline? rest).getD rest
  linesRest? quote (quote == '"') (rest.length + 1) [] rest

/-- A string in any notation. -/
def string? : List Char → Option (String × List Char)
  | '"' :: '"' :: '"' :: rest => linesString? '"' rest
  | '\'' :: '\'' :: '\'' :: rest => linesString? '\'' rest
  | cs => lineString? cs

/-! ### Writing -/

/-- The length of the longest row of a character in a text, of which `run`
have just been passed. -/
def longestRun (c : Char) : Nat → List Char → Nat
  | run, [] => run
  | run, d :: rest => if d == c then longestRun c (run + 1) rest else max run (longestRun c 0 rest)

/-- Whether a character has to be escaped in every notation. -/
def isControl (c : Char) : Bool := (c < ' ' && c != '\t' && c != '\n') || c == '\x7f'

inductive Style where
  | basic
  | literal
  | basicLines
  | literalLines
  deriving DecidableEq, Repr, Inhabited

def hexDigit (n : Nat) : Char := if n < 10 then Char.ofNat (48 + n) else Char.ofNat (55 + n)

/-- An escaped character, if it cannot stand as it is. -/
def escapedChar? (lines : Bool) (c : Char) : Option (List Char) :=
  if c == '\\' then some ['\\', '\\']
  else if c == '\t' then some ['\\', 't']
  else if c == '\n' then if lines then none else some ['\\', 'n']
  else if c == '\x08' then some ['\\', 'b']
  else if c == '\x0c' then some ['\\', 'f']
  else if c == '\r' then some ['\\', 'r']
  else if c < ' ' || c == '\x7f' then
    some ['\\', 'u', '0', '0', hexDigit (c.toNat / 16), hexDigit (c.toNat % 16)]
  else none

/-- A text between quotes with escapes, `quotes` of which have just been
written; on several lines two in a row may stand. -/
def escapedText (lines : Bool) : Nat → List Char → List Char
  | _, [] => []
  | quotes, c :: rest =>
    if c == '"' then
      if lines && quotes < 2 then '"' :: escapedText lines (quotes + 1) rest
      else '\\' :: '"' :: escapedText lines 0 rest
    else
      match escapedChar? lines c with
      | some escape => escape ++ escapedText lines 0 rest
      | none => c :: escapedText lines 0 rest

/-- The plainest notation that a text has. -/
def styleOf (cs : List Char) : Style :=
  let controls := cs.any isControl
  let backslash := cs.contains '\\'
  let lines := cs.contains '\n'
  if !controls && !backslash && !cs.contains '"' && !lines then .basic
  else if !controls && !cs.contains '\'' && !lines then .literal
  else if !controls && !backslash && longestRun '"' 0 cs ≤ 2 then .basicLines
  else if !controls && longestRun '\'' 0 cs ≤ 2 then .literalLines
  else if lines then .basicLines
  else .basic

/-- A text on several lines begins on a line of its own, if it has several. -/
def opening (cs : List Char) : List Char := if cs.contains '\n' then ['\n'] else []

def quotedText (cs : List Char) : Style → List Char
  | .basic => '"' :: escapedText false 0 cs ++ ['"']
  | .literal => '\'' :: cs ++ ['\'']
  | .basicLines => "\"\"\"".toList ++ opening cs ++ escapedText true 0 cs ++ "\"\"\"".toList
  | .literalLines => "'''".toList ++ opening cs ++ cs ++ "'''".toList

def writeString (s : String) : String :=
  String.ofList (quotedText s.toList (styleOf s.toList))

end ModuleGraph.Toml
