/-
# JSON forms

The JSON forms of the library's values: how each is written, and how it is
read back from a value that may not be one.

Key definitions: `Interchange.read`, and a reader and a writer per type.
-/
import ModuleGraph.Registry
import ModuleGraph.Service
import ModuleGraph.Settings

namespace ModuleGraph.Interchange

open Document

/-- Reads a JSON value. -/
def read {α : Type} (reader : Reader α) (value : Json) : Except Mismatch α :=
  reader (.ofJson value)

/-! ### Names -/

def language : Reader Language := variant .json ⟨"Language", Language.all, Language.id⟩

def ofLanguage (l : Language) : Json := .string l.id

def status : Reader LoadStatus := variant .json ⟨"LoadStatus", LoadStatus.all, LoadStatus.id⟩

def ofStatus (s : LoadStatus) : Json := .string s.id

/-! ### Options -/

def options : Reader Syntax.Options :=
  record .json "ParseOptions"
    [(Field.of "source_type" (variant .json sourceTypes) fun v (o : Syntax.Options) =>
        { o with sourceType := v }).needed,
      (Field.of "error_recovery" truth fun v (o : Syntax.Options) =>
        { o with errorRecovery := v }).needed,
      (Field.of "allow_import_export_everywhere" truth fun v (o : Syntax.Options) =>
        { o with allowImportExportEverywhere := v }).needed,
      (Field.of "dialect" (variant .json dialects) fun v (o : Syntax.Options) =>
        { o with dialect := v }).needed] {}

def ofOptions (o : Syntax.Options) : Json :=
  .object
    [("source_type", .string o.sourceType.id), ("error_recovery", .bool o.errorRecovery),
      ("allow_import_export_everywhere", .bool o.allowImportExportEverywhere),
      ("dialect", .string o.dialect.id)]

def overrides : Reader Syntax.Overrides := overridesReader .json

/-- Only what is set is written. -/
def ofOverrides (o : Syntax.Overrides) : Json :=
  .object ([o.sourceType.map fun v => ("source_type", .string v.id),
    o.errorRecovery.map fun v => ("error_recovery", .bool v),
    o.allowImportExportEverywhere.map fun v => ("allow_import_export_everywhere", .bool v),
    o.dialect.map fun v => ("dialect", .string v.id)].filterMap id)

/-! ### References -/

def reference : Reader Reference :=
  record .json "ModuleReference"
    [(Field.of "value" string fun v (r : Reference) => { r with value := v }).needed,
      (Field.of "start" offset fun v (r : Reference) => { r with start := v }).needed,
      (Field.of "end" offset fun v (r : Reference) => { r with stop := v }).needed] ⟨"", 0, 0⟩

def ofReference (r : Reference) : Json :=
  .object [("value", .string r.value), ("start", .int r.start), ("end", .int r.stop)]

/-! ### Diagnostics -/

def diagnostic : Reader Diagnostic :=
  record .json "Diagnostic"
    [(Field.of "message" string fun v (d : Diagnostic) => { d with message := v }).needed,
      (Field.of "start" offset fun v (d : Diagnostic) => { d with start := v }).needed,
      (Field.of "end" offset fun v (d : Diagnostic) => { d with stop := v }).needed,
      Field.of "code" (optional natural32) fun v (d : Diagnostic) => { d with code := v }]
    ⟨"", 0, 0, none⟩

/-- A code is written only if there is one. -/
def ofDiagnostic (d : Diagnostic) : Json :=
  .object ([("message", .string d.message), ("start", .int d.start), ("end", .int d.stop)] ++
    match d.code with
    | some code => [("code", .int code)]
    | none => [])

def diagnostics : Reader Diagnostics :=
  record .json "Diagnostics"
    [(Field.of "syntactic" (listOf diagnostic) fun v (d : Diagnostics) =>
        { d with syntactic := v }).needed,
      (Field.of "semantic" (listOf diagnostic) fun v (d : Diagnostics) =>
        { d with semantic := v }).needed] {}

def ofDiagnostics (d : Diagnostics) : Json :=
  .object
    [("syntactic", .array (d.syntactic.map ofDiagnostic)),
      ("semantic", .array (d.semantic.map ofDiagnostic))]

/-! ### Settings -/

def settings : Reader Settings := Settings.reader .json

def ofSettings (s : Settings) : Json :=
  .object
    [("version", .int s.version),
      ("resolver", .object
        [("dependency_root", .string s.resolver.dependencyRoot),
          ("declaration_suffix", .string s.resolver.declarationSuffix)]),
      ("loader", .object [("declaration_model", .bool s.loader.declarationModel)]),
      ("parser", ofOverrides s.parser),
      ("logging", .object [("level", .string s.logging.level), ("ansi", .bool s.logging.ansi)])]

end ModuleGraph.Interchange
