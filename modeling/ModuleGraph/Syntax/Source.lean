/-
# Source texts

A text as the reader of a dialect walks it: its characters by index, and the
byte offset of each of them, since spans are reported in bytes of the UTF-8
form. Beside it stand the character classes of the dialects and the places
of blanks and comments.

Key definitions: `Source`, `Source.ofString`, `Source.offset`,
`Source.skipWhile`, `Source.commentStop`, `Source.wordStop`.
-/

namespace ModuleGraph.Syntax

/-- The languages a text can be written in. -/
inductive Dialect where
  | typescript
  | tsx
  | javascript
  deriving DecidableEq, Repr, Inhabited

namespace Dialect

/-- Whether the dialect has type annotations. -/
def isTyped : Dialect → Bool
  | javascript => false
  | _ => true

/-- Whether the dialect has element literals such as `<a/>`. -/
def hasElements : Dialect → Bool
  | typescript => false
  | _ => true

end Dialect

/-- The characters of a text and where each begins, in bytes. `offsets` has
one entry more than `chars`: the length of the text. -/
structure Source where
  chars : Array Char
  offsets : Array Nat
  deriving Inhabited

namespace Source

def ofString (text : String) : Source :=
  let chars := text.toList
  let step (acc : Array Nat × Nat) (c : Char) := (acc.1.push acc.2, acc.2 + c.utf8Size)
  let (offsets, total) := chars.foldl step (#[], 0)
  ⟨chars.toArray, offsets.push total⟩

def size (s : Source) : Nat := s.chars.size

def char? (s : Source) (i : Nat) : Option Char := s.chars[i]?

/-- The byte at which character `i` begins; past the end, the length. -/
def offset (s : Source) (i : Nat) : Nat := s.offsets.getD i (s.offsets.back?.getD 0)

/-- The characters from `i` up to `j`. -/
def slice (s : Source) (i j : Nat) : String := String.ofList (s.chars.extract i j).toList

def has (s : Source) (i : Nat) (p : Char → Bool) : Bool :=
  match s.char? i with
  | some c => p c
  | none => false

/-- The first index from `i` on whose character is not in the class. -/
def skipWhile (s : Source) (p : Char → Bool) (i : Nat) : Nat :=
  if h : i < s.chars.size then
    if p s.chars[i] then s.skipWhile p (i + 1) else i
  else i
  termination_by s.chars.size - i

/-- Whether the characters from `i` on begin with `cs`. -/
def startsWith (s : Source) : List Char → Nat → Bool
  | [], _ => true
  | c :: cs, i => s.char? i == some c && s.startsWith cs (i + 1)

/-! ### Character classes -/

/-- Blanks of the C locale, the ones that decide where a line ends. -/
def isSpace (c : Char) : Bool :=
  c == ' ' || ('\t' ≤ c && c ≤ '\r')

/-- The separators of Unicode's class Zs. -/
def isSeparator (c : Char) : Bool :=
  c == ' ' || c == '\u00a0' || c == '\u1680' || ('\u2000' ≤ c && c ≤ '\u200a') ||
    c == '\u202f' || c == '\u205f' || c == '\u3000'

/-- What may stand between two tokens besides comments. -/
def isBlank (c : Char) : Bool :=
  isSpace c || isSeparator c || c == '\ufeff' || c == '\u2028' || c == '\u2029' ||
    c == '\u2060' || c == '\u200b'

def isLineEnd (c : Char) : Bool :=
  c == '\n' || c == '\r' || c == '\u2028' || c == '\u2029'

def isDigit (c : Char) : Bool := '0' ≤ c && c ≤ '9'

def isHexDigit (c : Char) : Bool :=
  isDigit c || ('a' ≤ c && c ≤ 'f') || ('A' ≤ c && c ≤ 'F')

def isLetter (c : Char) : Bool := ('a' ≤ c && c ≤ 'z') || ('A' ≤ c && c ≤ 'Z')

def punctuation : List Char :=
  [':', ';', '`', '"', '\'', '@', '#', '.', ',', '|', '^', '&', '<', '=', '>', '+', '-', '*',
   '/', '\\', '%', '?', '!', '~', '(', ')', '[', ']', '{', '}']

/-- Characters of a word. -/
def isWordChar (c : Char) : Bool :=
  !(c < ' ') && !isBlank c && !punctuation.contains c

/-- Where the escape of a character within a word ends, if one begins at `i`:
four hexadecimal digits, or any number of them in braces. -/
def wordEscapeStop (s : Source) (i : Nat) : Option Nat :=
  if s.startsWith ['\\', 'u'] i then
    if s.char? (i + 2) == some '{' then
      let j := s.skipWhile isHexDigit (i + 3)
      if i + 3 < j && s.char? j == some '}' then some (j + 1) else none
    else
      let digits := [i + 2, i + 3, i + 4, i + 5]
      if digits.all (fun k => s.has k isHexDigit) then some (i + 6) else none
  else none

/-- Where a run of word characters and word escapes ends; `fuel` bounds the
number of escapes. -/
def wordRun (s : Source) : Nat → Nat → Nat
  | 0, i => i
  | fuel + 1, i =>
    let j := s.skipWhile isWordChar i
    match s.wordEscapeStop j with
    | some k => s.wordRun fuel k
    | none => j

/-- Where the word that begins at `i` ends. A word does not begin with a digit. -/
def wordStop (s : Source) (i : Nat) : Option Nat :=
  if s.has i isDigit then none
  else
    let j := s.wordRun s.size i
    if i < j then some j else none

/-! ### Blanks and comments -/

/-- Where the block comment whose text begins at `i` ends. -/
def blockCommentStop (s : Source) (i : Nat) : Option Nat :=
  if h : i < s.chars.size then
    if s.chars[i] = '*' ∧ s.char? (i + 1) = some '/' then some (i + 2)
    else s.blockCommentStop (i + 1)
  else none
  termination_by s.chars.size - i

/-- Where the comment that begins at `i` ends, if one does. -/
def commentStop (s : Source) (i : Nat) : Option Nat :=
  if s.startsWith ['/', '/'] i then some (s.skipWhile (fun c => !isLineEnd c) (i + 2))
  else if s.startsWith ['/', '*'] i then s.blockCommentStop (i + 2)
  else none

def skipBlanks (s : Source) (i : Nat) : Nat := s.skipWhile isBlank i

end Source

end ModuleGraph.Syntax
