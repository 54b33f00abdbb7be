/-
# Classes

Class bodies with their fields, methods, signatures and static blocks, and
the classes themselves. In the untyped dialect every member is held under the
field `member`; in the typed ones the decorators of a method stand before it
in the body, and those of a field belong to the field.

Key definitions: `classBody`, `classHead`, `classExpression`.
-/
import ModuleGraph.Syntax.TypeTerm

namespace ModuleGraph.Syntax

open Rule

variable (read : Nonterminal → Rule)

/-- Where a declaration ends: behind a value an operator could follow. -/
def edgeAfter (nodes : List Concrete) : Edge :=
  let initialised (tree : Concrete) : Bool := tree.children.any fun c => c.field == some "value"
  if (nodes.getLast?).any initialised then .operand else .clause

def staticBlock : Rule :=
  node "class_static_block" [word "static", field "body" (read (.block .clause))]

/-! ### Members of typed classes -/

def overriding : Rule := opt (seq [wordNode "override_modifier" "override", beforeProperty])

def publicField : Rule :=
  let declared := opt (modifier "declare")
  node "public_field_definition"
    [decorators read, declared, opt (seq [accessibility, beforeProperty]), declared,
      opt (modifier "static"), overriding, opt (modifier "readonly"), opt (modifier "abstract"),
      opt (modifier "readonly"), opt (modifier "accessor"), field "name" (propertyName read),
      opt (choice [mark "?" "", punct "!"]), field "type" (opt (typeMark read .clause)),
      opt (initializer read .operand)]

def abstractMethod : Rule :=
  node "abstract_method_signature"
    [opt (seq [accessibility, beforeProperty]), modifier "abstract", overriding, methodKind,
      field "name" (propertyName read), opt (punct "?"), callSignature read .signature true]

def typedMember : Rule :=
  let method := seq
    [decorators read, methodDefinition read, opt (semicolon .clause)]
  let signature := choice
    [abstractMethod read, indexSignature read .clause, methodSignature read .signature]
  let signed := seq [signature, choice [punct ",", semicolon .signature]]
  let fieldMember := (publicField read).bind fun nodes =>
    seq [gives nodes, choice [punct ",", semicolon (edgeAfter nodes)]]
  choice [staticBlock read, method, signed, fieldMember, punct ";"]

/-! ### Members of untyped classes -/

def fieldDefinition : Rule :=
  node "field_definition"
    [decorators read, opt (modifier "static"), field "property" (propertyName read),
      opt (initializer read .operand)]

def untypedMember : Rule :=
  let fieldMember := (fieldDefinition read).bind fun nodes =>
    seq [field "member" (gives nodes), semicolon (edgeAfter nodes)]
  choice
    [field "member" (staticBlock read), seq [field "member" (methodDefinition read), opt (punct ";")],
      fieldMember, punct ";"]

/-! ### Classes -/

def classBody : Rule := forDialect fun d =>
  let member := if d.isTyped then typedMember read else untypedMember read
  node "class_body" [openBrace, many member, closeBrace]

def heritage : Rule := forDialect fun d =>
  let superclass := read (.callee .inner)
  let implemented := node "implements_clause"
    [word "implements", commaSeparated (read (.typeTerm .inner))]
  if d.isTyped then
    let extended := node "extends_clause"
      [word "extends", commaSeparated (seq
        [field "value" superclass, field "type_arguments" (opt (typeArguments read))])]
    node "class_heritage" [choice [seq [extended, opt implemented], implemented]]
  else node "class_heritage" [word "extends", superclass]

/-- A class from its name on. -/
def classTail (named : Rule → Rule) : Rule := forDialect fun d =>
  let head := if d.isTyped then seq
      [field "name" (named (name "type_identifier")),
        field "type_parameters" (opt (typeParameters read))]
    else field "name" (named identifier)
  seq [head, opt (heritage read), field "body" (read .classBody)]

/-- A class without a name must not take its heritage for one. -/
def optionalName (r : Rule) : Rule :=
  opt (seq [absent (anyWordOf ["extends", "implements"]), r])

def classExpression : Rule :=
  node "class" [decorators read, word "class", classTail read optionalName]

def classDeclaration : Rule :=
  node "class_declaration"
    [decorators read, word "class", classTail read id, opt (impliedSemicolon .clause)]

def abstractClass : Rule :=
  node "abstract_class_declaration"
    [decorators read, word "abstract", word "class", classTail read id]

end ModuleGraph.Syntax
