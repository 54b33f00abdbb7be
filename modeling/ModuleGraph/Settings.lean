/-
# Settings

What can be configured, section by section, and what holds where nothing is.

Key definitions: `Settings`, `Settings.reader`, `overridesReader`.
-/
import ModuleGraph.Candidate
import ModuleGraph.Document.Reader
import ModuleGraph.Syntax.Options

namespace ModuleGraph

structure ResolverSettings where
  /-- What the identifiers of packages begin with. -/
  dependencyRoot : String := defaultDependencyRoot
  /-- What is appended to an identifier when its declaration is registered. -/
  declarationSuffix : String := defaultDeclarationSuffix
  deriving DecidableEq, Repr, Inhabited

structure LoaderSettings where
  /-- Whether a buffer is opened for every registered declaration. -/
  declarationModel : Bool := false
  deriving DecidableEq, Repr, Inhabited

structure LoggingSettings where
  level : String := "info"
  ansi : Bool := true
  deriving DecidableEq, Repr, Inhabited

structure Settings where
  version : Nat := 1
  resolver : ResolverSettings := {}
  loader : LoaderSettings := {}
  parser : Syntax.Overrides := {}
  logging : LoggingSettings := {}
  deriving DecidableEq, Repr, Inhabited

/-! ### Reading -/

open Document

def sourceTypes : Variants Syntax.SourceType :=
  ⟨"SourceType", Syntax.SourceType.all, Syntax.SourceType.id⟩

def dialects : Variants Syntax.Dialect := ⟨"Dialect", Syntax.Dialect.all, Syntax.Dialect.id⟩

def overridesFields (origin : Origin) : List (Document.Field Syntax.Overrides) :=
  [.of "source_type" (optional (variant origin sourceTypes)) fun v o => { o with sourceType := v },
    .of "error_recovery" (optional truth) fun v o => { o with errorRecovery := v },
    .of "allow_import_export_everywhere" (optional truth) fun v o =>
      { o with allowImportExportEverywhere := v },
    .of "dialect" (optional (variant origin dialects)) fun v o => { o with dialect := v }]

def overridesReader (origin : Origin) : Reader Syntax.Overrides :=
  record origin "ParseOptionsOverride" (overridesFields origin) {}

def resolverFields : List (Document.Field ResolverSettings) :=
  [.of "dependency_root" string fun v r => { r with dependencyRoot := v },
    .of "declaration_suffix" string fun v r => { r with declarationSuffix := v }]

def resolverReader (origin : Origin) : Reader ResolverSettings :=
  record origin "ResolverConfig" resolverFields {}

def loaderFields : List (Document.Field LoaderSettings) :=
  [.of "declaration_model" truth fun v r => { r with declarationModel := v }]

def loaderReader (origin : Origin) : Reader LoaderSettings :=
  record origin "LoaderConfig" loaderFields {}

def loggingFields : List (Document.Field LoggingSettings) :=
  [.of "level" string fun v r => { r with level := v },
    .of "ansi" truth fun v r => { r with ansi := v }]

def loggingReader (origin : Origin) : Reader LoggingSettings :=
  record origin "LoggingConfig" loggingFields {}

def Settings.fields (origin : Origin) : List (Document.Field Settings) :=
  [.of "version" natural32 fun v s => { s with version := v },
    .of "resolver" (resolverReader origin) fun v s => { s with resolver := v },
    .of "loader" (loaderReader origin) fun v s => { s with loader := v },
    .of "parser" (overridesReader origin) fun v s => { s with parser := v },
    .of "logging" (loggingReader origin) fun v s => { s with logging := v }]

def Settings.reader (origin : Origin) : Reader Settings :=
  record origin "Settings" (Settings.fields origin) {}

end ModuleGraph
