/-
# Imports and exports

The statements that tie a module to others: imports of every form, exports of
names, values and declarations, re-exports, and the forms that only the typed
dialects have.

Key definitions: `importStatement`, `exportStatement`.
-/
import ModuleGraph.Syntax.Statement

namespace ModuleGraph.Syntax

open Rule

variable (read : Nonterminal → Rule)

/-- A name under which a module exports something: any word in a typed
dialect, and `default` is no name but a word of its own in the untyped one. -/
def exportedName : Rule := forDialect fun d =>
  let plain := if d.isTyped then anyWord "identifier" else choice [identifier, word "default"]
  choice [plain, stringLiteral]

def source : Rule := field "source" stringLiteral

def fromClause : Rule := seq [word "from", source]

/-! ### Imports -/

/-- Elements in braces, with commas between them and possibly behind the last. -/
def braced (r : Rule) : Rule :=
  seq [openBrace, opt (seq [commaSeparated r, opt (punct ",")]), closeBrace]

def beforeNext : Rule := peek (choice [punct ",", closeBrace])

def importSpecifier : Rule :=
  let plain := choice
    [seq [field "name" exportedName, word "as", field "alias" identifier, beforeNext],
      seq [field "name" (forDialect fun d =>
        if d.isTyped then anyWord "identifier" else identifier), beforeNext]]
  let marked := typed (seq [anyWordOf ["type", "typeof"], plain])
  node "import_specifier" [choice [marked, plain]]

def namedImports : Rule := node "named_imports" [braced importSpecifier]

def namespaceImport : Rule := node "namespace_import" [punct "*", word "as", identifier]

def importClause : Rule :=
  let group := choice [namespaceImport, namedImports]
  node "import_clause" [choice [group, seq [identifier, opt (seq [punct ",", group])]]]

def requireClause : Rule :=
  node "import_require_clause"
    [identifier, assign, word "require", punct "(", source, punct ")"]

def importStatement : Rule :=
  let attributes := opt (node "import_attribute"
    [continues .clause, word "with", object read])
  let what := choice [seq [importClause, fromClause], typed requireClause, source]
  let rest := seq [what, attributes, semicolon .clause]
  node "import_statement"
    [word "import",
      choice [typed (seq [anyWordOf ["type", "typeof"], rest]), rest]]

/-! ### Exports -/

def exportSpecifier : Rule :=
  let plain := choice
    [seq [field "name" exportedName, word "as", field "alias" exportedName, beforeNext],
      seq [field "name" exportedName, beforeNext]]
  let marked := typed (seq [anyWordOf ["type", "typeof"], plain])
  node "export_specifier" [choice [marked, plain]]

def exportClause : Rule := node "export_clause" [braced exportSpecifier]

def namespaceExport : Rule := node "namespace_export" [punct "*", word "as", exportedName]

def exportedDefault : Rule :=
  seq [word "default",
    choice
      [field "declaration" (read .declaration),
        seq [field "value" (read (.expression .operand true)), semicolon .operand]]]

def exportStatement : Rule :=
  let named := seq
    [word "export",
      choice
        [seq [namespaceExport, fromClause], seq [punct "*", fromClause],
          seq [exportClause, opt (seq [continues .clause, fromClause])],
          typed (seq [word "type", exportClause, opt (seq [continues .clause, fromClause])]),
          typed (seq [word "as", word "namespace", identifier])],
      semicolon .clause]
  let assigned := seq
    [word "export", assign, read (.expression .operand true), semicolon .operand]
  let declared := seq
    [decorators read, word "export",
      choice [field "declaration" (read .declaration), exportedDefault read]]
  node "export_statement" [choice [named, typed assigned, declared]]

def statement : Rule := statementOf read [exportStatement read, importStatement read]

end ModuleGraph.Syntax
