/-
# Types

The types of the typed dialects: conditional types bind most weakly, then
unions, intersections, prefix words, arrays and look-ups, and names, literals
and bracketed types most strongly. Object types, tuples, mapped types and the
types that query a value are among the last.

Key definitions: `typeTerm`, `unionType`, `primaryType`, `objectType`.
-/
import ModuleGraph.Syntax.Expression

namespace ModuleGraph.Syntax

open Rule

variable (read : Nonterminal → Rule)

def innerType : Rule := read (.typeTerm .inner)

def typeName : Rule := name "type_identifier"

/-! ### Names -/

/-- `a.b.c` as the path to a name: the last but one dot holds the outer node. -/
def qualifiedStep (left : List Concrete) : Rule :=
  extend "nested_identifier" "object" (left.map fun tree =>
      if tree.kind == "nested_identifier" then tree.ofKind "member_expression" else tree)
    [dot, field "property" propertyWord]

def qualifiedName : Rule := grow identifier qualifiedStep

/-- A path of names that another dot and name follow. -/
def qualifier : Rule :=
  let more := peek (seq [dot, propertyWord, dot])
  grow identifier fun left => seq [more, qualifiedStep left]

def typeReference : Rule :=
  choice
    [node "nested_type_identifier"
      [field "module" qualifier, dot, field "name" typeName], typeName]

def genericType : Rule :=
  typeReference.bind fun left => choice
    [extend "generic_type" "name" left [field "type_arguments" (typeArguments read)], gives left]

/-- The words that stand for a type. -/
def predefinedType : Rule :=
  node "predefined_type"
    [choice [anyWordOf ["any", "number", "boolean", "string", "symbol", "void", "unknown",
      "never", "object"], seq [word "unique", word "symbol"]]]

def literalType : Rule :=
  let negative := node "unary_expression"
    [field "operator" (markWhere ["-", "+"].contains), field "argument" number]
  node "literal_type"
    [choice [negative, number, stringLiteral, wordNode "true" "true", wordNode "false" "false",
      wordNode "null" "null", wordNode "undefined" "undefined"]]

/-! ### Types of values -/

/-- What the type of a value may be asked of: a name and what it holds. -/
def queryStep (left : List Concrete) : Rule :=
  choice
    [extend "member_expression" "object" left
      [choice [dot, optionalDot], field "property" (choice [privateName, propertyWord])],
      extend "subscript_expression" "object" left
        [punct "[", field "index" (choice [predefinedType, stringLiteral, number]), punct "]"],
      extend "call_expression" "function" left [field "arguments" (arguments read)]]

def importWord : Rule :=
  seq [wordNode "import" "import", peek (punct "(")]

def typeQuery : Rule :=
  let subject := grow (choice [importWord, wordNode "this" "this", identifier]) (queryStep read)
  let instantiated := subject.bind fun left => choice
    [extend "instantiation_expression" "function" left
      [field "type_arguments" (typeArguments read)], gives left]
  node "type_query" [word "typeof", instantiated]

/-- The type of a member of a module that is imported in place. -/
def importType : Rule :=
  grow (only ["call_expression"] (importWord.bind fun left =>
    extend "call_expression" "function" left [field "arguments" (arguments read)])) fun left =>
      extend "member_expression" "object" left
        [dot, field "property" (choice [privateName, propertyWord])]

def templateType : Rule :=
  let infer := node "infer_type" [word "infer", typeName]
  node "template_literal_type"
    [punct "`", many (choice [templateText,
      node "template_type"
        [punctHere "$\x7b", choice [infer, read (.unionType .inner)], closeBrace]]),
      punctHere "`"]

/-! ### Bracketed types -/

def tupleType : Rule :=
  let annotation := field "type" (typeMark read .inner)
  let restName := node "rest_pattern" [punct "...", identifier]
  let member := choice
    [node "optional_parameter" [field "name" identifier, punct "?", annotation],
      node "required_parameter" [field "name" (choice [restName, identifier]), annotation],
      node "rest_type" [punct "...", innerType read],
      (innerType read).bind fun left => choice
        [extendBare "optional_type" left [punct "?"], gives left]]
  node "tuple_type" [punct "[", opt (seq [commaSeparated member, opt (punct ",")]), punct "]"]

/-- A colon with the sign that keeps, adds or drops optionality. -/
def indexedMark (edge : Edge) : Rule :=
  let signed (kind sign : String) := node kind [punct sign, read (.typeTerm edge)]
  choice
    [typeMark read edge, signed "omitting_type_annotation" "-?:",
      signed "adding_type_annotation" "+?:", signed "opting_type_annotation" "?:"]

def indexSignature (edge : Edge) : Rule :=
  let mapped := node "mapped_type_clause"
    [field "name" typeName, word "in", field "type" (innerType read),
      opt (seq [word "as", field "alias" (innerType read)])]
  let plain := seq [field "name" identifier, punct ":", field "index_type" (innerType read)]
  node "index_signature"
    [opt (seq [field "sign" (opt (markWhere ["-", "+"].contains)), word "readonly"]),
      punct "[", choice [plain, mapped], punct "]", field "type" (indexedMark read edge)]

def propertyModifiers : Rule :=
  seq
    [opt (seq [accessibility, beforeProperty]), opt (modifier "static"),
      opt (seq [wordNode "override_modifier" "override", beforeProperty]),
      opt (modifier "readonly")]

def propertySignature : Rule :=
  node "property_signature"
    [propertyModifiers, field "name" (propertyName read), opt (punct "?"),
      field "type" (opt (typeMark read .clause))]

def methodSignature (edge : Edge) : Rule :=
  node "method_signature"
    [propertyModifiers, opt (modifier "async"), methodKind, field "name" (propertyName read),
      opt (punct "?"), callSignature read edge true]

def constructSignature : Rule :=
  node "construct_signature"
    [opt (word "abstract"), word "new",
      field "type_parameters" (opt (typeParameters read)), field "parameters" (read .parameters),
      field "type" (opt (typeMark read .clause))]

/-- The members of an object type or an interface, as a node of `kind`. -/
def objectTypeAs (kind : String) : Rule :=
  let callMember := node "call_signature" [callSignature read .clause true]
  let member := choice
    [constructSignature read, callMember, indexSignature read .clause,
      methodSignature read .clause, propertySignature read]
  let separator := choice [punct ",", semicolon .clause]
  node kind
    [openBrace, opt (choice [punct ",", punct ";"]),
      opt (seq [member, many (seq [separator, member]), opt separator]), closeBrace]

def parenthesizedType : Rule := node "parenthesized_type" [punct "(", innerType read, punct ")"]

/-! ### Types by strength -/

def primaryType : Rule :=
  choice
    [parenthesizedType read, predefinedType, typeQuery read, wordNode "this_type" "this",
      literalType, templateType read, importType read, tupleType read,
      objectTypeAs read "object_type", node "existential_type" [punct "*"], genericType read]

def suffixedType (edge : Edge) : Rule :=
  grow (read .primaryType) fun left => seq
    [continues edge, choice
      [extendBare "array_type" left [punct "[", punct "]"],
        extendBare "lookup_type" left [punct "[", innerType read, punct "]"]]]

def functionType (edge : Edge) : Rule :=
  let result := field "return_type"
    (choice [assertion read edge, typePredicate read edge, read (.typeTerm edge)])
  let head := seq
    [field "type_parameters" (opt (typeParameters read)), field "parameters" (read .parameters),
      punct "=>"]
  choice
    [node "function_type" [head, result],
      node "constructor_type"
        [opt (word "abstract"), word "new", head, field "type" (read (.typeTerm edge))]]

def prefixedType (edge : Edge) : Rule :=
  let constraint := opt (seq [continues edge, word "extends", read (.unionType edge)])
  choice
    [functionType read edge,
      node "readonly_type" [word "readonly", read (.typeTerm edge)],
      node "index_type_query" [word "keyof", suffixedType read edge],
      node "infer_type" [word "infer", typeName, constraint],
      suffixedType read edge]

/-- Types with a mark between them; the mark may also stand first. -/
def joinedType (edge : Edge) (kind symbol : String) (operand : Rule) : Rule :=
  let joint := markWhere [symbol].contains
  grow (choice [node kind [joint, operand], operand]) fun left =>
    seq [continues edge, extendBare kind left [joint, operand]]

def unionType (edge : Edge) : Rule :=
  joinedType edge "union_type" "|"
    (joinedType edge "intersection_type" "&" (prefixedType read edge))

def typeTerm (edge : Edge) : Rule :=
  (read (.unionType edge)).bind fun left => choice
    [extend "conditional_type" "left" left
      [continues edge, word "extends", field "right" (read (.unionType .inner)), punct "?",
        field "consequence" (innerType read), punct ":",
        field "alternative" (read (.typeTerm edge))],
      gives left]

end ModuleGraph.Syntax
