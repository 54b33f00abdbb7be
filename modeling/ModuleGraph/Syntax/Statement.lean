/-
# Statements and declarations

Every statement and declaration but the imports and exports, which have a
module of their own.

Key definitions: `statementOf`, `declarationOf`, `block`.
-/
import ModuleGraph.Syntax.ClassTerm

namespace ModuleGraph.Syntax

open Rule

variable (read : Nonterminal → Rule)

/-! ### Declarations of values -/

def declarator : Rule := forDialect fun d =>
  if d.isTyped then choice
    [node "variable_declarator"
      [field "name" identifier, punct "!", field "type" (typeMark read .clause)],
      node "variable_declarator"
        [field "name" (binding read), field "type" (opt (typeMark read .clause)),
          opt (initializer read .operand)]]
  else node "variable_declarator" [field "name" (binding read), opt (initializer read .operand)]

def declarators : Rule :=
  (commaSeparated (declarator read)).bind fun nodes =>
    seq [gives nodes, semicolon (edgeAfter nodes)]

def variableDeclaration : Rule :=
  node "variable_declaration" [word "var", declarators read]

def lexicalDeclaration : Rule :=
  node "lexical_declaration" [field "kind" (anyWordOf ["let", "const"]), declarators read]

def functionDeclaration : Rule :=
  let head := seq [field "name" identifier, callSignature read .signature true]
  let body := seq [field "body" (read (.block .clause)), opt (impliedSemicolon .clause)]
  choice
    [node "generator_function_declaration"
      [opt (word "async"), word "function", punct "*", head, body],
      node "function_declaration" [opt (word "async"), word "function", head, body],
      typed (node "function_signature"
        [opt (word "async"), word "function", head, semicolon .signature])]

/-! ### Declarations of types and namespaces -/

def extendsTypes : Rule :=
  node "extends_type_clause"
    [word "extends", commaSeparated (field "type" (genericType read))]

def interfaceDeclaration : Rule :=
  node "interface_declaration"
    [word "interface", field "name" typeName, field "type_parameters" (opt (typeParameters read)),
      opt (extendsTypes read), field "body" (objectTypeAs read "interface_body")]

def typeAlias : Rule :=
  node "type_alias_declaration"
    [word "type", field "name" typeName, field "type_parameters" (opt (typeParameters read)),
      assign, field "value" (read (.typeTerm .clause)), semicolon .clause]

def enumeration : Rule :=
  let member := choice
    [node "enum_assignment" [field "name" (propertyName read), initializer read .inner],
      field "name" (propertyName read)]
  node "enum_declaration"
    [opt (word "const"), word "enum", field "name" identifier,
      field "body" (node "enum_body"
        [openBrace, opt (seq [commaSeparated member, opt (punct ",")]), closeBrace])]

/-- The name and the body of a namespace; a body may be missing. -/
def namespaceRest : Rule :=
  let path := only ["nested_identifier"] qualifiedName
  seq
    [field "name" (choice [stringLiteral, path, identifier]),
      field "body" (opt (read (.block .clause)))]

def externalModule : Rule := node "module" [word "module", namespaceRest read]

def internalModule : Rule := node "internal_module" [word "namespace", namespaceRest read]

def importAlias : Rule :=
  let path := only ["nested_identifier"] qualifiedName
  node "import_alias"
    [word "import", identifier, assign, choice [path, identifier], semicolon .clause]

def ambient : Rule :=
  node "ambient_declaration"
    [word "declare",
      choice
        [read .declaration, seq [word "global", read (.block .clause)],
          seq [word "module", dot, propertyWord, punct ":", read (.typeTerm .clause),
            semicolon .clause]]]

def declarationOf : Rule :=
  choice
    [functionDeclaration read, classDeclaration read,
      typed (choice
        [abstractClass read, enumeration read, typeAlias read, interfaceDeclaration read,
          externalModule read, internalModule read, importAlias, ambient read]),
      lexicalDeclaration read, variableDeclaration read]

/-! ### Control flow -/

def block (edge : Edge) : Rule :=
  node "statement_block"
    [openBrace, many (read .statement), closeBrace, opt (impliedSemicolon edge)]

def emptyStatement : Rule := node "empty_statement" [punct ";"]

def expressionStatement : Rule :=
  node "expression_statement" [expressions read .operand, semicolon .operand]

def condition : Rule := field "condition" (parenthesized read)

def body : Rule := field "body" (read .statement)

def ifStatement : Rule :=
  let otherwise := node "else_clause" [word "else", read .statement]
  node "if_statement"
    [word "if", condition read, field "consequence" (read .statement),
      field "alternative" (opt otherwise)]

def forStatement : Rule :=
  let initial := choice
    [field "initializer" (choice [lexicalDeclaration read, variableDeclaration read]),
      seq [field "initializer" (expressions read .inner), punct ";"],
      field "initializer" emptyStatement]
  let test := choice
    [seq [field "condition" (expressions read .inner), punct ";"], field "condition" emptyStatement]
  node "for_statement"
    [word "for", punct "(", initial, test, field "increment" (opt (expressions read .inner)),
      punct ")", body read]

def forInStatement : Rule :=
  let declared := choice
    [seq [field "kind" (word "var"), field "left" (binding read), opt (initializer read .inner)],
      seq [field "kind" (anyWordOf ["let", "const"]), field "left" (binding read)],
      field "left" (choice [read .destructuring, target read .inner, parenthesized read])]
  node "for_in_statement"
    [word "for", opt (word "await"), punct "(", declared,
      field "operator" (anyWordOf ["in", "of"]), field "right" (expressions read .inner),
      punct ")", body read]

def whileStatement : Rule := node "while_statement" [word "while", condition read, body read]

def doStatement : Rule :=
  node "do_statement"
    [word "do", body read, word "while", condition read, opt (semicolon .clause)]

def switchStatement : Rule :=
  let statements := field "body" (many (read .statement))
  let branch := choice
    [node "switch_case"
      [word "case", field "value" (expressions read .inner), punct ":", statements],
      node "switch_default" [word "default", punct ":", statements]]
  node "switch_statement"
    [word "switch", field "value" (parenthesized read),
      field "body" (node "switch_body" [openBrace, many branch, closeBrace])]

def tryStatement : Rule :=
  let statements := field "body" (read (.block .clause))
  let parameter := seq
    [punct "(", field "parameter" (binding read),
      field "type" (opt (typed (typeMark read .inner))), punct ")"]
  node "try_statement"
    [word "try", statements,
      opt (field "handler" (node "catch_clause" [word "catch", opt parameter, statements])),
      opt (field "finalizer" (node "finally_clause" [word "finally", statements]))]

def withStatement : Rule :=
  node "with_statement" [word "with", field "object" (parenthesized read), body read]

/-- `break` or `continue`, with a label on the same line if any. -/
def jump (kind text : String) : Rule :=
  let label := field "label" (name "statement_identifier")
  node kind [word text, choice [seq [continues .clause, label, semicolon .clause], semicolon .clause]]

def returnStatement : Rule :=
  let value := seq [continues .clause, expressions read .operand, semicolon .operand]
  node "return_statement" [word "return", choice [value, semicolon .clause]]

def throwStatement : Rule :=
  node "throw_statement" [word "throw", expressions read .operand, semicolon .operand]

def labeledStatement : Rule :=
  node "labeled_statement" [field "label" (name "statement_identifier"), punct ":", body read]

/-- A namespace at the level of statements is an expression, where that
expression is complete. -/
def namespaceStatement : Rule :=
  node "expression_statement" [internalModule read, semicolon .operand]

/-- A statement other than the ones in `first`. -/
def statementOf (first : List Rule) : Rule :=
  choice (first ++
    [read (.block .clause), emptyStatement, typed (namespaceStatement read), read .declaration,
      ifStatement read, forInStatement read, forStatement read, whileStatement read,
      doStatement read, switchStatement read, tryStatement read, withStatement read,
      jump "break_statement" "break", jump "continue_statement" "continue",
      node "debugger_statement" [word "debugger", semicolon .clause],
      returnStatement read, throwStatement read, labeledStatement read, expressionStatement read])

end ModuleGraph.Syntax
