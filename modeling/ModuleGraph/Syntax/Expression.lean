/-
# Expressions

Expressions from the weakest binding to the strongest: arrow functions,
assignments, conditionals, operators by strength, prefix operators, calls and
member accesses, literals.

Within a statement an expression ends where a semicolon is implied, so every
continuation first asks whether the line goes on (`Rule.continues`).

Key definitions: `expression`, `operation`, `unary`, `callee`, `primary`,
`markStrength`.
-/
import ModuleGraph.Syntax.Pattern

namespace ModuleGraph.Syntax

open Rule

variable (read : Nonterminal → Rule)

/-! ### Operators -/

/-- The marks of expressions, a longer one before those it begins with. -/
def marks : List String :=
  [">>>=", "===", "!==", "**=", "<<=", ">>=", ">>>", "&&=", "||=", "??=", "...",
   "==", "!=", "<=", ">=", "&&", "||", "??", "**", "<<", ">>", "++", "--", "+=", "-=", "*=", "/=",
   "%=", "&=", "|=", "^=", "=>", "?.", "+", "-", "*", "/", "%", "<", ">", "&", "|", "^", "!", "=",
   "?"]

/-- How strongly an operator binds its operands; the other marks are none. -/
def markStrength : String → Option Nat
  | "??" => some 1
  | "||" => some 2
  | "&&" => some 3
  | "|" => some 4
  | "^" => some 5
  | "&" => some 6
  | "==" | "===" | "!=" | "!==" => some 7
  | "<" | "<=" | ">" | ">=" | "in" | "instanceof" => some 8
  | "<<" | ">>" | ">>>" => some 9
  | "+" | "-" => some 10
  | "*" | "/" | "%" => some 11
  | "**" => some 12
  | _ => none

/-- The marks that assign the result of an operation. -/
def assigningMarks : List String :=
  ["+=", "-=", "*=", "/=", "%=", "^=", "&=", "|=", ">>=", ">>>=", "<<=", "**=", "&&=", "||=",
   "??="]

/-- The mark at the next token, where it is accepted. -/
def markWhere (accept : String → Bool) : Rule :=
  extras.andThen fun s p =>
    match marks.find? (fun m => s.source.startsWith m.toList p.pos) with
    | some m => if accept m then leafHere m false (scanText m) s p else (none, p)
    | none => (none, p)

/-- An operator that binds with `strength` at least. -/
def operatorFrom (strength : Nat) : Rule :=
  let words := if strength ≤ 8 then anyWordOf ["in", "instanceof"] else fail
  choice [markWhere (fun m => (markStrength m).any (strength ≤ ·)), words]

/-- The right operand of an operator: it binds more strongly, except that
powers group to the right. -/
def rightStrength (operator : String) : Nat :=
  let strength := (markStrength operator).getD 0
  if operator == "**" then strength else strength + 1

def binaryStep (edge : Edge) (strength : Nat) (left : List Concrete) : Rule :=
  (operatorFrom strength).bind fun operator =>
    let symbol := (operator.getLast?.map Concrete.kind).getD ""
    (read (.operation edge (rightStrength symbol))).bind fun right =>
      gives (enclose "binary_expression"
        (labelled "left" left ++ labelled "operator" operator ++ labelled "right" right))

/-- `as` and `satisfies` bind more weakly than every operator. -/
def castStep (edge : Edge) (left : List Concrete) : Rule :=
  choice
    [extendBare "as_expression" left
      [word "as", choice [word "const", read (.typeTerm edge)]],
      extendBare "satisfies_expression" left [word "satisfies", read (.typeTerm edge)]]

def operation (edge : Edge) (strength : Nat) : Rule :=
  let operand := choice [seq [privateName, peek (word "in")], read (.unary edge)]
  grow operand fun left => seq
    [continues edge,
      choice [binaryStep read edge strength left,
        if strength == 0 then typed (castStep read edge left) else fail]]

/-! ### Assignments and conditionals -/

/-- The question mark of a conditional, which is no optional access. -/
def scanQuestion (s : Source) (i : Nat) : Option Nat :=
  if s.char? i == some '?' && s.char? (i + 1) != some '?' &&
      (s.char? (i + 1) != some '.' || s.has (i + 2) Source.isDigit) then some (i + 1) else none

def conditional (edge : Edge) : Rule :=
  (read (.operation edge 0)).bind fun condition =>
    let branches (resultTypes : Bool) := seq
      [field "consequence" (read (.expression .inner resultTypes)), punct ":",
        field "alternative" (read (.expression edge true))]
    choice
      [extend "ternary_expression" "condition" condition
        [continues edge, leaf "?" false scanQuestion, choice [branches true, branches false]],
        gives condition]

def assignment (edge : Edge) : Rule :=
  let enclosed := only ["parenthesized_expression"] (read (.callee edge))
  let place := choice [target read edge, enclosed]
  choice
    [node "assignment_expression"
      [field "left" (choice [read .destructuring, place]), continues edge, assign,
        field "right" (read (.expression edge true))],
      node "augmented_assignment_expression"
        [field "left" place, continues edge,
          field "operator" (markWhere assigningMarks.contains),
          field "right" (read (.expression edge true))],
      conditional read edge]

def yielding (edge : Edge) : Rule :=
  node "yield_expression"
    [word "yield",
      choice [seq [punct "*", read (.expression edge true)],
        seq [continues edge, read (.expression edge true)], done]]

def arrowFunction (edge : Edge) (resultTypes : Bool) : Rule :=
  let head := choice
    [seq [field "parameter" identifier, punct "=>"],
      seq [callSignature read .inner resultTypes, punct "=>"]]
  let body := field "body" (choice [read (.block .operand), read (.expression edge true)])
  node "arrow_function" [choice [seq [word "async", head], head], body]

def expression (edge : Edge) (resultTypes : Bool) : Rule :=
  choice [arrowFunction read edge resultTypes, yielding read edge, assignment read edge]

/-- Expressions with commas between them. -/
def expressions (edge : Edge) : Rule :=
  (read (.expression edge true)).bind fun first => choice
    [extendBare "sequence_expression" first
      [many1 (seq [punct ",", read (.expression edge true)])],
      gives first]

/-! ### Prefix and suffix operators -/

def suffixed (edge : Edge) : Rule :=
  (read (.callee edge)).bind fun left => choice
    [extend "update_expression" "argument" left
      [continues edge, field "operator" (markWhere ["++", "--"].contains)],
      gives left]

def unary (edge : Edge) : Rule :=
  let operand := read (.unary edge)
  let operator := choice
    [markWhere ["!", "-", "+"].contains, punct "~", anyWordOf ["typeof", "void", "delete"]]
  choice
    [node "unary_expression" [field "operator" operator, field "argument" operand],
      node "update_expression"
        [field "operator" (markWhere ["++", "--"].contains), field "argument" operand],
      node "await_expression" [word "await", operand],
      forDialect fun d =>
        if d == .typescript then node "type_assertion" [typeArguments read, operand] else fail,
      suffixed read edge]

/-! ### Calls and member accesses -/

/-- A dot that is followed by a name. -/
def dot : Rule := mark "." "."

def optionalDot : Rule := leaf "?." false fun s i =>
  if s.startsWith ['?', '.'] i && !s.has (i + 2) Source.isDigit then some (i + 2) else none

def optionalChain : Rule := field "optional_chain" (renamedNode optionalDot)
where
  renamedNode (r : Rule) : Rule := r.bind fun nodes => gives (nodes.map fun tree =>
    if tree.isComment then tree
    else .node { tree.label with kind := "optional_chain", named := true } [])

def memberName : Rule := field "property" (choice [privateName, propertyWord])

def index : Rule := seq [punct "[", field "index" (expressions read .inner), punct "]"]

def templateString : Rule :=
  let substitution := node "template_substitution"
    [punctHere "$\x7b", expressions read .inner, closeBrace]
  node "template_string"
    [punct "`", many (choice [templateText, escape, substitution]), punctHere "`"]

/-- Type arguments, where the dialect has them, and what the call is given. -/
def typedArguments (given : Rule) : Rule :=
  seq [field "type_arguments" (opt (typed (typeArguments read))), field "arguments" given]

/-- Type arguments alone are complete where no operand follows them. -/
def instantiationEnd : Rule := peek (extras.andThen (guard fun s i =>
  match s.source.char? i with
  | none => true
  | some c => [')', ']', '}', ',', ';', ':', '.', '?', '=', '!', '&', '|'].contains c))

def memberStep (left : List Concrete) : Rule :=
  choice
    [extend "member_expression" "object" left [dot, memberName],
      extend "subscript_expression" "object" left [index read]]

def optionalStep (left : List Concrete) : Rule :=
  let call := forDialect fun d =>
    if d.isTyped then extend "call_expression" "function" left 
      [optionalDot, typedArguments read (arguments read)]
    else extend "call_expression" "function" left
      [optionalChain, field "arguments" (arguments read)]
  choice
    [call, extend "subscript_expression" "object" left [optionalChain, index read],
      extend "member_expression" "object" left [optionalChain, memberName]]

def callStep (left : List Concrete) : Rule :=
  choice
    [memberStep read left, optionalStep read left,
      extend "call_expression" "function" left
        [typedArguments read (choice [arguments read, templateString read])],
      typed (extendBare "non_null_expression" left [mark "!" "="]),
      typed (extendBare "instantiation_expression" left
        [field "type_arguments" (typeArguments read), instantiationEnd])]

/-- The subject of `new` reaches up to the arguments. -/
def construction (edge : Edge) : Rule :=
  let subject := grow (choice [read (.construction edge), read .primary]) fun left =>
    seq [continues edge, memberStep read left]
  node "new_expression"
    [word "new", field "constructor" subject,
      field "type_arguments" (opt (seq [continues edge, typed (typeArguments read)])),
      field "arguments" (opt (seq [continues edge, arguments read]))]

def metaProperty : Rule :=
  choice
    [node "meta_property" [word "new", punct ".", word "target"],
      node "meta_property" [word "import", punct ".", word "meta"]]

def callee (edge : Edge) : Rule :=
  let importWord := seq [wordNode "import" "import", peek (choice [punct "(", punct "."])]
  grow (choice [metaProperty, importWord, read (.construction edge), read .primary]) fun left =>
    seq [continues edge, callStep read left]

/-! ### Literals -/

def functionExpression : Rule :=
  let rest := seq
    [field "name" (opt identifier), callSignature read .operand true,
      field "body" (read (.block .operand))]
  choice
    [node "generator_function" [opt (word "async"), word "function", punct "*", rest],
      node "function_expression" [opt (word "async"), word "function", rest]]

/-- A word that is a modifier, since the name of a property follows. -/
def modifier (text : String) : Rule := seq [word text, beforeProperty]

def methodKind : Rule :=
  opt (choice [modifier "get", modifier "set", punct "*"])

def methodDefinition : Rule := forDialect fun d =>
  if d.isTyped then node "method_definition"
    [opt (seq [accessibility, beforeProperty]), opt (modifier "static"),
      opt (seq [wordNode "override_modifier" "override", beforeProperty]),
      opt (modifier "readonly"), opt (modifier "async"), methodKind,
      field "name" (propertyName read), opt (punct "?"), callSignature read .clause true,
      field "body" (read (.block .clause))]
  else node "method_definition"
    [decorators read, opt (modifier "static"), opt (modifier "async"), methodKind,
      field "name" (propertyName read), field "parameters" (read .parameters),
      field "body" (read (.block .clause))]

def object : Rule :=
  let pair := node "pair"
    [field "key" (propertyName read), punct ":", field "value" (innerExpression read)]
  let shorthand := seq
    [name "shorthand_property_identifier", peek (choice [punct ",", closeBrace])]
  node "object"
    [openBrace, commaSeparatedHoles (choice [spread read, pair, methodDefinition read, shorthand]),
      closeBrace]

def array : Rule :=
  node "array"
    [punct "[", commaSeparatedHoles (choice [spread read, innerExpression read]), punct "]"]

def parenthesized : Rule :=
  let annotated := typed (seq
    [innerExpression read, field "type" (opt (typeMark read .inner)), punct ")"])
  node "parenthesized_expression"
    [punct "(", choice [annotated, seq [expressions read .inner, punct ")"]]]

def primary : Rule :=
  choice
    [wordNode "this" "this", wordNode "super" "super", wordNode "true" "true",
      wordNode "false" "false", wordNode "null" "null", wordNode "undefined" "undefined",
      functionExpression read, read .classExpression, identifier, number, stringLiteral, templateString read,
      parenthesized read, array read, object read, regex,
      forDialect fun d => if d.hasElements then read .element else fail]

end ModuleGraph.Syntax
