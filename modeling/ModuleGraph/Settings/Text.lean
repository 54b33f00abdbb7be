/-
# Written settings

The text that settings are saved as: every field, section by section, and of
the overrides those that are set.

Key definitions: `Settings.text`, `Settings.document`.
-/
import ModuleGraph.Settings
import ModuleGraph.Toml.Text

namespace ModuleGraph

namespace Syntax.Overrides

/-- The overrides that are set, by the names of their fields. -/
def entries (o : Overrides) : List (String × Document) :=
  [o.sourceType.map fun v => ("source_type", Document.text v.id),
    o.errorRecovery.map fun v => ("error_recovery", .bool v),
    o.allowImportExportEverywhere.map fun v => ("allow_import_export_everywhere", .bool v),
    o.dialect.map fun v => ("dialect", .text v.id)].filterMap id

end Syntax.Overrides

namespace Settings

/-- The sections of settings, in the order in which they are written. -/
def sections (s : Settings) : List (String × List (String × Document)) :=
  [("resolver",
      [("dependency_root", .text s.resolver.dependencyRoot),
        ("declaration_suffix", .text s.resolver.declarationSuffix)]),
    ("loader", [("declaration_model", .bool s.loader.declarationModel)]),
    ("parser", s.parser.entries),
    ("logging", [("level", .text s.logging.level), ("ansi", .bool s.logging.ansi)])]

/-- Settings as a document. -/
def document (s : Settings) : Document :=
  .table (("version", .unsigned s.version) :: s.sections.map fun p => (p.1, .table p.2))

/-- The text of a field's value. -/
def valueText : Document → String
  | .text v => Toml.writeString v
  | .bool v => toString v
  | .unsigned n => toString n
  | _ => ""

def line (entry : String × Document) : String := entry.1 ++ " = " ++ valueText entry.2 ++ "\n"

def sectionText (p : String × List (String × Document)) : String :=
  "\n[" ++ p.1 ++ "]\n" ++ String.join (p.2.map line)

def text (s : Settings) : String :=
  line ("version", .unsigned s.version) ++ String.join (s.sections.map sectionText)

end Settings

end ModuleGraph
