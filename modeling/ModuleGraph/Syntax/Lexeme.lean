/-
# Lexemes

The rules that read single tokens: punctuation, words, numbers, string
pieces, template pieces, patterns between slashes, text between tags. A token
may be preceded by blanks and comments, and the comments are kept as nodes;
the pieces of strings, templates and tags follow each other with nothing
between them.

A statement may end without its semicolon. Whether it does at a place is
decided from the characters that follow (`impliedSemicolon`): a line has to
end, and what begins the next one must not continue the statement.

Key definitions: `Rule.punct`, `Rule.word`, `Rule.identifier`,
`Rule.stringLiteral`, `Rule.semicolon`, `Rule.continues`, `impliedSemicolon`.
-/
import ModuleGraph.Syntax.Rule

namespace ModuleGraph.Syntax

/-! ### Semicolons that are not written -/

namespace Source

/-- Past blanks and comments from `i` on; nothing where a slash begins no
comment. -/
def skipToCode (s : Source) : Nat → Nat → Option Nat
  | 0, i => some i
  | fuel + 1, i =>
    let j := s.skipWhile isSpace i
    if s.char? j == some '/' then
      match s.commentStop j with
      | some k => s.skipToCode fuel k
      | none => none
    else some j

/-- Whether the operator `in` or `instanceof` begins at `i`, where an `i` stands. -/
def beginsRelation (s : Source) (i : Nat) : Bool :=
  if s.char? (i + 1) != some 'n' then false
  else if !s.has (i + 2) isLetter then true
  else s.startsWith "instanceof".toList i && !s.has (i + 10) isLetter

/-- Whether a statement that ends at the line before may end there although
its next line begins with the character at `j`. -/
def endsBefore (s : Source) (dialect : Dialect) (edge : Edge) (j : Nat) : Bool :=
  match s.char? j with
  | none => true
  | some c =>
    if ['`', ',', ':', ';', '*', '%', '>', '<', '=', '?', '^', '|', '&', '/'].contains c then false
    else if c == '.' then !dialect.isTyped && s.has (j + 1) isDigit
    else if c == '(' || c == '[' then dialect.isTyped && edge != .operand
    else if c == '{' then edge != .signature
    else if c == '+' then s.char? (j + 1) == some '+'
    else if c == '-' then s.char? (j + 1) == some '-'
    else if c == '!' then s.char? (j + 1) != some '='
    else if c == 'i' then !s.beginsRelation j
    else true

/-- As `endsBefore`, past the blanks and comments from `i` on. -/
def endsLineBefore (s : Source) (dialect : Dialect) (edge : Edge) (i : Nat) : Bool :=
  match s.skipToCode (s.size + 1) i with
  | some j => s.endsBefore dialect edge j
  | none => false

/-- Whether a statement of a typed dialect may end at `i`: the text ends, its
block does, or the line does. -/
def endsTyped (s : Source) (dialect : Dialect) (edge : Edge) (i : Nat) : Bool :=
  let j := s.skipWhile (fun c => isSpace c && c != '\n') i
  match s.char? j with
  | none => true
  | some '}' => s.char? (s.skipWhile isSpace (j + 1)) != some ':' || edge == .operand
  | some '\n' => s.endsLineBefore dialect edge (j + 1)
  | some _ => false

/-- Whether a line ends within the block comment between `i` and `j`. -/
def breaksLine (s : Source) (i j : Nat) : Bool :=
  (s.chars.extract i j).any fun c => c == '\n' || c == '\u2028' || c == '\u2029'

/-- What comments at a place say about the end of a statement: where they
end, and whether a line certainly ends with them. Block comments are read up
to the first that another comment does not follow directly. -/
def commentsAt (s : Source) : Nat → Nat → Bool → Option (Nat × Bool)
  | 0, i, broken => some (i, broken)
  | fuel + 1, i, broken =>
    let j := s.skipWhile isSpace i
    if s.char? j != some '/' then some (j, true)
    else match s.commentStop j with
      | none => none
      | some k =>
        if s.startsWith ['/', '*'] j then
          let broken := broken || s.breaksLine j k
          if s.char? k == some '/' then s.commentsAt fuel k broken else some (k, broken)
        else s.commentsAt fuel k broken

/-- Whether a statement of an untyped dialect may end at `i`. Comments behind
it end it as a line does, unless it could go on with an operator. -/
def endsUntyped (s : Source) (edge : Edge) : Nat → Nat → Bool
  | 0, _ => false
  | fuel + 1, i =>
    match s.char? i with
    | none => true
    | some '}' => true
    | some '/' =>
      match s.commentsAt (s.size + 1) i false with
      | none => false
      | some (j, ended) =>
        if ended && edge != .operand && s.char? j != some ',' && s.char? j != some '=' then true
        else if s.has j (fun c => c == '/') then false
        else match s.char? j with
          | none => false
          | some '}' => true
          | some c =>
            if c == '\n' || c == '\u2028' || c == '\u2029' then
              s.endsLineBefore .javascript edge (j + 1)
            else if isSpace c then s.endsUntyped edge fuel (j + 1) else false
    | some c =>
      if c == '\n' || c == '\u2028' || c == '\u2029' then
        s.endsLineBefore .javascript edge (i + 1)
      else if isSpace c then s.endsUntyped edge fuel (i + 1) else false

/-- Whether a semicolon is implied at `i`. -/
def impliedSemicolon (s : Source) (dialect : Dialect) (edge : Edge) (i : Nat) : Bool :=
  if edge == .inner then false
  else if dialect.isTyped then s.endsTyped dialect edge i
  else s.endsUntyped edge (s.size + 1) i

end Source

namespace Rule

/-! ### Tokens -/

def comment (s : Source) (i j : Nat) : Concrete :=
  .node { kind := "comment", start := s.offset i, stop := s.offset j } []

/-- The comments from `i` on and the first place that is neither blank nor
comment. -/
def commentsFrom (s : Source) : Nat → Nat → List Concrete × Nat
  | 0, i => ([], i)
  | fuel + 1, i =>
    let j := s.skipBlanks i
    match s.commentStop j with
    | some k =>
      let (comments, stop) := commentsFrom s fuel k
      (comment s j k :: comments, stop)
    | none => ([], j)

/-- Reads blanks and comments. -/
def extras : Rule := fun s p =>
  let (comments, stop) := commentsFrom s.source (s.source.size + 1) p.pos
  (some comments, { p with pos := stop })

/-- Reads a leaf at exactly this place. -/
def leafHere (kind : String) (named : Bool) (scan : Source → Nat → Option Nat) : Rule :=
  fun s p =>
    match scan s.source p.pos with
    | some stop =>
      let label : Label :=
        { kind := kind, named := named, start := s.source.offset p.pos,
          stop := s.source.offset stop, lexeme := s.source.slice p.pos stop }
      (some [.node label []], { p with pos := stop })
    | none => (none, p)

/-- Reads a leaf behind blanks and comments. -/
def leaf (kind : String) (named : Bool) (scan : Source → Nat → Option Nat) : Rule :=
  extras.andThen (leafHere kind named scan)

def scanText (text : String) (s : Source) (i : Nat) : Option Nat :=
  if s.startsWith text.toList i then some (i + text.length) else none

/-- A mark, not followed by one of the characters that would make another one
of it. -/
def scanMark (text notBefore : String) (s : Source) (i : Nat) : Option Nat :=
  if s.startsWith text.toList i && !s.has (i + text.length) (fun c => notBefore.toList.contains c)
  then some (i + text.length) else none

def punct (text : String) : Rule := leaf text false (scanText text)

def openBrace : Rule := punct "\x7b"

def closeBrace : Rule := punct "\x7d"

def mark (text notBefore : String) : Rule := leaf text false (scanMark text notBefore)

def punctHere (text : String) : Rule := leafHere text false (scanText text)

def scanWord (text : String) (s : Source) (i : Nat) : Option Nat :=
  if s.startsWith text.toList i && s.wordStop i == some (i + text.length)
  then some (i + text.length) else none

/-- A word with a meaning of its own. -/
def word (text : String) : Rule := leaf text false (scanWord text)

def anyWordOf (texts : List String) : Rule := choice (texts.map word)

/-- A word with a meaning of its own that is a node. -/
def wordNode (kind text : String) : Rule := leaf kind true (scanWord text)

/-- Words that name nothing. -/
def reserved : List String :=
  ["break", "case", "catch", "class", "const", "continue", "debugger", "default", "delete", "do",
   "else", "export", "extends", "false", "finally", "for", "function", "if", "import", "in",
   "instanceof", "new", "null", "return", "super", "switch", "this", "throw", "true", "try",
   "typeof", "var", "void", "while", "with"]

def scanName (s : Source) (i : Nat) : Option Nat :=
  match s.wordStop i with
  | some j => if reserved.contains (s.slice i j) then none else some j
  | none => none

/-- A word that names something. -/
def name (kind : String) : Rule := leaf kind true scanName

def identifier : Rule := name "identifier"

/-- Any word whatsoever, as the name of a property is. -/
def anyWord (kind : String) : Rule := leaf kind true Source.wordStop

def propertyWord : Rule := anyWord "property_identifier"

def scanPrivate (s : Source) (i : Nat) : Option Nat :=
  if s.char? i == some '#' then s.wordStop (i + 1) else none

def privateName : Rule := leaf "private_property_identifier" true scanPrivate

/-- Elements with commas between them. -/
def commaSeparated (r : Rule) : Rule := r.andThen (many (seq [punct ",", r]))

/-- As `commaSeparated`, where elements may be left out. -/
def commaSeparatedHoles (r : Rule) : Rule := (opt r).andThen (many (seq [punct ",", opt r]))

/-! ### Numbers -/

/-- Digits of a class with single underscores between them; where they end. -/
def digitsStop (s : Source) (digit : Char → Bool) : Nat → Nat → Nat
  | 0, i => i
  | fuel + 1, i =>
    if s.has i digit then digitsStop s digit fuel (i + 1)
    else if s.char? i == some '_' && s.has (i + 1) digit then digitsStop s digit fuel (i + 2)
    else i

def decimalStop (s : Source) (i : Nat) : Nat :=
  if s.has i Source.isDigit then digitsStop s Source.isDigit s.size i else i

def exponentStop (s : Source) (i : Nat) : Nat :=
  if s.char? i == some 'e' || s.char? i == some 'E' then
    let j := if s.char? (i + 1) == some '+' || s.char? (i + 1) == some '-' then i + 2 else i + 1
    if s.has j Source.isDigit then decimalStop s j else i
  else i

/-- A number in another base, such as `0x1f`. -/
def scanBased (s : Source) (i : Nat) (letter : Char) (digit : Char → Bool) : Option Nat :=
  if s.char? i == some '0' && s.has (i + 1) (fun c => c == letter || c == letter.toUpper) &&
      s.has (i + 2) digit then
    let j := digitsStop s digit s.size (i + 2)
    some (if s.char? j == some 'n' then j + 1 else j)
  else none

def scanDecimal (s : Source) (i : Nat) : Option Nat :=
  if s.char? i == some '.' then
    if s.has (i + 1) Source.isDigit then some (exponentStop s (decimalStop s (i + 1))) else none
  else if s.has i Source.isDigit then
    let j := decimalStop s i
    if s.char? j == some 'n' then some (j + 1)
    else if s.char? j == some '.' then some (exponentStop s (decimalStop s (j + 1)))
    else some (exponentStop s j)
  else none

def scanNumber (s : Source) (i : Nat) : Option Nat :=
  (scanBased s i 'x' Source.isHexDigit).or <|
  (scanBased s i 'o' (fun c => '0' ≤ c && c ≤ '7')).or <|
  (scanBased s i 'b' (fun c => c == '0' || c == '1')).or (scanDecimal s i)

def number : Rule := leaf "number" true scanNumber

/-! ### Strings, templates, patterns -/

/-- Where the escape that begins at `i` ends: a backslash and one character,
up to three octal digits, a hexadecimal code, or the end of a line. -/
def scanEscape (s : Source) (i : Nat) : Option Nat :=
  if s.char? i != some '\\' then none
  else match s.char? (i + 1) with
    | none => none
    | some 'x' =>
      if s.has (i + 2) Source.isHexDigit && s.has (i + 3) Source.isHexDigit then some (i + 4)
      else none
    | some 'u' => s.wordEscapeStop i
    | some c =>
      let octal (c : Char) : Bool := '0' ≤ c && c ≤ '7'
      if octal c then
        if !s.has (i + 2) octal then some (i + 2)
        else if !s.has (i + 3) octal then some (i + 3)
        else some (i + 4)
      else if (c == '\r' || c == '?') &&
          s.has (i + 2) (fun c => c == '\n' || c == '\u2028' || c == '\u2029') then some (i + 3)
      else some (i + 2)

def escape : Rule := leafHere "escape_sequence" true scanEscape

/-- Characters of a class, one at least. -/
def scanRun (p : Char → Bool) (s : Source) (i : Nat) : Option Nat :=
  let j := s.skipWhile p i
  if i < j then some j else none

def stringPiece (quote : Char) : Rule :=
  leafHere "string_fragment" true
    (scanRun fun c => c != quote && c != '\\' && c != '\r' && c != '\n')

def quoted (quote : Char) (piece : Rule) : Rule :=
  node "string" [punct quote.toString, many piece, punctHere quote.toString]

def stringLiteral : Rule :=
  let literal (quote : Char) := quoted quote (choice [stringPiece quote, escape])
  choice [literal '\'', literal '"']

/-- Text of a template, up to its end, an escape or a substitution. -/
def templateStop (s : Source) (i : Nat) : Nat :=
  if h : i < s.chars.size then
    let c := s.chars[i]
    if c == '`' || c == '\\' || (c == '$' && s.char? (i + 1) == some '{') then i
    else templateStop s (i + 1)
  else i
  termination_by s.chars.size - i

def scanTemplateText (s : Source) (i : Nat) : Option Nat :=
  let j := templateStop s i
  if i < j && j < s.size then some j else none

def templateText : Rule := leafHere "string_fragment" true scanTemplateText

/-- The text between the slashes of a pattern; a slash in brackets is part of
it. -/
def regexStop (s : Source) (inClass : Bool) (i : Nat) : Option Nat :=
  if h : i < s.chars.size then
    let c := s.chars[i]
    if c == '\n' then none
    else if c == '\\' then
      if s.has (i + 1) (fun c => c != '\n') then regexStop s inClass (i + 2) else none
    else if inClass then regexStop s (c != ']') (i + 1)
    else if c == '/' then some i
    else regexStop s (c == '[') (i + 1)
  else none
  termination_by s.chars.size - i

def scanRegexText (s : Source) (i : Nat) : Option Nat :=
  match regexStop s false i with
  | some j => if i < j then some j else none
  | none => none

def regex : Rule :=
  node "regex" [punct "/", field "pattern" (leafHere "regex_pattern" true scanRegexText),
    punctHere "/",
    opt (field "flags" (leafHere "regex_flags" true (scanRun fun c => 'a' ≤ c && c ≤ 'z')))]

/-! ### The ends of statements -/

/-- The place at which a semicolon is implied at or behind comments from `i`
on, with those comments. -/
def impliedAfter (s : Scope) (edge : Edge) : Nat → Nat → Option (List Concrete × Nat)
  | 0, _ => none
  | fuel + 1, i =>
    if s.source.impliedSemicolon s.dialect edge i then some ([], i)
    else
      let j := s.source.skipBlanks i
      match s.source.commentStop j with
      | some k => (impliedAfter s edge fuel k).map fun r => (comment s.source j k :: r.1, r.2)
      | none => none

/-- A semicolon that is not written takes no room, but it is part of its
statement, and so are the comments before it. -/
def impliedSemicolon (edge : Edge) : Rule := fun s p =>
  match impliedAfter s edge (s.source.size + 1) p.pos with
  | some (comments, i) =>
    let at_ := s.source.offset i
    (some (comments ++ [.node { kind := ";", named := false, start := at_, stop := at_ } []]),
      { p with pos := i })
  | none => (none, p)

def semicolon (edge : Edge) : Rule := (impliedSemicolon edge).orElse (punct ";")

/-- The line goes on: no semicolon is implied here. -/
def continues (edge : Edge) : Rule := guard fun s i =>
  edge == .inner || (impliedAfter s edge (s.source.size + 1) i).isNone

end Rule

end ModuleGraph.Syntax
