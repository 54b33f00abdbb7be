/-
# Element literals

Tags, attributes and the text between tags. Text is taken as it stands, with
its blanks, unless it is nothing but the end of a line and the indentation
that follows.

Key definitions: `element`, `scanElementText`.
-/
import ModuleGraph.Syntax.Expression

namespace ModuleGraph.Syntax

open Rule

variable (read : Nonterminal → Rule)

/-- The text up to the next tag, brace or character reference, and whether it
holds anything but line ends and indentation. -/
def elementTextStop (s : Source) (i : Nat) (atLineStart shows : Bool) : Nat × Bool :=
  if h : i < s.chars.size then
    let c := s.chars[i]
    if ['<', '>', '{', '}', '&'].contains c then (i, shows)
    else if c == '\n' then elementTextStop s (i + 1) true shows
    else
      let blank := Source.isSpace c
      elementTextStop s (i + 1) (atLineStart && blank) (shows || !(atLineStart && blank))
  else (i, shows)
  termination_by s.chars.size - i

def scanElementText (s : Source) (i : Nat) : Option Nat :=
  let (stop, shows) := elementTextStop s i false false
  if shows then some stop else none

/-- A character by its name or number, such as `&lt;`. -/
def scanReference (s : Source) (i : Nat) : Option Nat :=
  if s.char? i != some '&' then none
  else
    let closed (first least most : Nat) (p : Char → Bool) : Option Nat :=
      let j := s.skipWhile p first
      if first + least ≤ j && j ≤ first + most && s.char? j == some ';' then some (j + 1) else none
    if s.char? (i + 1) == some '#' then
      if s.has (i + 2) (fun c => c == 'x' || c == 'X') then closed (i + 3) 1 6 Source.isHexDigit
      else closed (i + 2) 1 5 Source.isDigit
    else closed (i + 1) 1 30 Source.isLetter

def reference : Rule := leaf "html_character_reference" true scanReference

def referenceHere : Rule := leafHere "html_character_reference" true scanReference

/-- The text of an attribute up to its quote or a character reference. -/
def attributeTextStop (quote : Char) (s : Source) (i : Nat) : Nat :=
  if h : i < s.chars.size then
    let c := s.chars[i]
    if c == quote then i
    else if c == '&' && s.has (i + 1) (fun c => c == '#' || Source.isLetter c) then i
    else attributeTextStop quote s (i + 1)
  else i
  termination_by s.chars.size - i

def attributeString : Rule :=
  let piece (quote : Char) := leafHere "string_fragment" true fun s i =>
    let j := attributeTextStop quote s i
    if i < j then some j else none
  let literal (quote : Char) := quoted quote (choice [piece quote, referenceHere])
  choice [literal '\'', literal '"']

/-! ### Names -/

/-- A name with dashes in it. -/
def scanDashed (s : Source) (i : Nat) : Option Nat :=
  let letter (c : Char) : Bool := Source.isLetter c || c == '_' || c == '$'
  if s.has i letter then
    let j := s.skipWhile (fun c => letter c || Source.isDigit c || c == '-') i
    if s.slice i j |>.contains '-' then some j else none
  else none

def tagWord (kind : String) : Rule := choice [leaf kind true scanDashed, anyWord kind]

def namespacedName : Rule :=
  node "jsx_namespace_name" [tagWord "identifier", punct ":", tagWord "identifier"]

def tagName : Rule :=
  let member := grow identifier fun left =>
    extend "member_expression" "object" left [dot, field "property" propertyWord]
  choice
    [namespacedName, only ["member_expression"] member, tagWord "identifier"]

/-! ### Tags -/

def attributeName : Rule := choice [namespacedName, tagWord "property_identifier"]

def embedded : Rule :=
  node "jsx_expression" [openBrace, opt (choice [spread read, expressions read .inner]), closeBrace]

def tagAttribute : Rule :=
  let value := choice [attributeString, embedded read, read .element]
  choice
    [node "jsx_attribute" [attributeName, opt (seq [punct "=", value])], embedded read]

def tagHead : Rule :=
  seq [field "name" tagName, field "type_arguments" (opt (typed (typeArguments read))),
    many (field "attribute" (tagAttribute read))]

def element : Rule :=
  let text := leafHere "jsx_text" true scanElementText
  let child := choice [text, reference, read .element, embedded read]
  choice
    [node "jsx_self_closing_element" [mark "<" "/", tagHead read, punct "/>"],
      node "jsx_element"
        [field "open_tag" (node "jsx_opening_element"
          [mark "<" "/", opt (tagHead read), punct ">"]),
          many child,
          field "close_tag" (node "jsx_closing_element"
            [punct "</", field "name" (opt tagName), punct ">"])]]

end ModuleGraph.Syntax
