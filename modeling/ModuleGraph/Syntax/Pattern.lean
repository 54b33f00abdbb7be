/-
# Names, patterns and parameters

What a value is bound to: names, object and array patterns with defaults and
rests, and the parameter lists made of them, with the type annotations and
modifiers of the typed dialects.

Key definitions: `propertyName`, `destructuring`, `pattern`, `parameters`,
`callSignature`, `decorator`.
-/
import ModuleGraph.Syntax.Lexeme

namespace ModuleGraph.Syntax

open Rule

variable (read : Nonterminal → Rule)

/-- An expression within brackets. -/
def innerExpression : Rule := read (.expression .inner true)

def assign : Rule := mark "=" "=>"

def initializer (edge : Edge) : Rule :=
  seq [assign, field "value" (read (.expression edge true))]

def propertyName : Rule :=
  choice [propertyWord, privateName, stringLiteral, number,
    node "computed_property_name" [punct "[", innerExpression read, punct "]"]]

/-- The next token can begin the name of a property, so that the word before
it is a modifier. -/
def beforeProperty : Rule := peek (extras.andThen (guard fun s i =>
  (s.source.wordStop i).isSome || s.source.has i fun c =>
    Source.isDigit c || ['\'', '"', '[', '#', '*'].contains c))

/-- The next token can begin the pattern of a parameter. -/
def beforePattern : Rule := peek (extras.andThen (guard fun s i =>
  (s.source.wordStop i).isSome || s.source.has i fun c => ['[', '{', '.'].contains c))

/-! ### Patterns -/

def restPattern : Rule := node "rest_pattern" [punct "...", read .pattern]

/-- What can be assigned to, destructuring apart. -/
def target (edge : Edge) : Rule :=
  only ["identifier", "member_expression", "subscript_expression", "non_null_expression",
    "undefined"] (read (.callee edge))

def pattern : Rule := choice [restPattern read, read .destructuring, target read .inner]

def assignmentPattern : Rule :=
  node "assignment_pattern"
    [field "left" (read .pattern), assign, field "right" (innerExpression read)]

def shorthandPattern : Rule := name "shorthand_property_identifier_pattern"

def objectPattern : Rule :=
  let pair := node "pair_pattern"
    [field "key" (propertyName read), punct ":",
      field "value" (choice [assignmentPattern read, read .pattern])]
  let withDefault := node "object_assignment_pattern"
    [field "left" (choice [shorthandPattern, read .destructuring]), assign,
      field "right" (innerExpression read)]
  node "object_pattern"
    [openBrace,
      commaSeparatedHoles (choice [restPattern read, pair, withDefault, shorthandPattern]),
      closeBrace]

def arrayPattern : Rule :=
  node "array_pattern"
    [punct "[", commaSeparatedHoles (choice [assignmentPattern read, read .pattern]), punct "]"]

def destructuring : Rule := choice [objectPattern read, arrayPattern read]

/-- A name or a destructuring pattern, as declarations bind them. -/
def binding : Rule := choice [identifier, read .destructuring]

/-! ### Types at values -/

def typeMark (edge : Edge) : Rule :=
  node "type_annotation" [punct ":", read (.typeTerm edge)]

def typePredicate (edge : Edge) : Rule :=
  node "type_predicate"
    [field "name" (choice [wordNode "this" "this", identifier]), word "is",
      field "type" (read (.typeTerm edge))]

def assertion (edge : Edge) : Rule :=
  node "asserts"
    [word "asserts", choice [typePredicate read edge, wordNode "this" "this", identifier]]

def resultMark (edge : Edge) : Rule :=
  choice
    [node "asserts_annotation" [punct ":", assertion read edge],
      node "type_predicate_annotation" [punct ":", typePredicate read edge],
      typeMark read edge]

def typeParameters : Rule :=
  let constraint := node "constraint"
    [choice [word "extends", punct ":"], read (.typeTerm .inner)]
  let parameter := node "type_parameter"
    [opt (word "const"), field "name" (name "type_identifier"),
      field "constraint" (opt constraint),
      field "value" (opt (node "default_type" [assign, read (.typeTerm .inner)]))]
  node "type_parameters"
    [punct "<", commaSeparated parameter, opt (punct ","), punct ">"]

def typeArguments : Rule :=
  node "type_arguments"
    [punct "<", commaSeparated (read (.typeTerm .inner)), opt (punct ","), punct ">"]

/-! ### Calls and parameters -/

def spread : Rule := node "spread_element" [punct "...", innerExpression read]

def arguments : Rule :=
  node "arguments"
    [punct "(", commaSeparatedHoles (choice [spread read, innerExpression read]), punct ")"]

def decorator : Rule :=
  let member := grow identifier fun left =>
    extend "member_expression" "object" left [punct ".", field "property" propertyWord]
  let applied := member.bind fun left => choice
    [extend "call_expression" "function" left
      [field "type_arguments" (opt (typed (typeArguments read))),
        field "arguments" (arguments read)],
      gives left]
  let enclosed := node "parenthesized_expression" [punct "(", innerExpression read, punct ")"]
  node "decorator" [punct "@", choice [applied, typed enclosed]]

def decorators : Rule := many (field "decorator" (decorator read))

def accessibility : Rule :=
  node "accessibility_modifier" [anyWordOf ["public", "private", "protected"]]

def typedParameter : Rule :=
  let bound := seq
    [decorators read, opt (seq [accessibility, beforePattern]),
      opt (seq [wordNode "override_modifier" "override", beforePattern]),
      opt (seq [word "readonly", beforePattern]),
      field "pattern" (choice [wordNode "this" "this", read .pattern])]
  let rest := seq
    [field "type" (opt (typeMark read .inner)), opt (initializer read .inner)]
  choice
    [node "optional_parameter" [bound, punct "?", rest],
      node "required_parameter" [bound, rest]]

def parameters : Rule :=
  let parameter := forDialect fun d =>
    if d.isTyped then typedParameter read
    else choice [assignmentPattern read, read .pattern]
  node "formal_parameters"
    [punct "(", opt (seq [commaSeparated parameter, opt (punct ",")]), punct ")"]

/-- Parameters with what the typed dialects put before and behind them. -/
def callSignature (edge : Edge) (resultType : Bool) : Rule := forDialect fun d =>
  if d.isTyped then seq
    [field "type_parameters" (opt (typeParameters read)), field "parameters" (read .parameters),
      if resultType then field "return_type" (opt (resultMark read edge)) else done]
  else field "parameters" (read .parameters)

end ModuleGraph.Syntax
