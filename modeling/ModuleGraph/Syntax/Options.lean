/-
# Options of parsing

How a text is taken: as a module or a script, whether a tree with errors is
kept, whether imports and exports may stand anywhere, and in which dialect it
is written. Options are the defaults with some of them replaced.

Key definitions: `Options`, `Overrides`, `Options.withOverrides`.
-/
import ModuleGraph.Syntax.Source

namespace ModuleGraph.Syntax

inductive SourceType where
  | module
  | script
  deriving DecidableEq, Repr, Inhabited

namespace SourceType

def id : SourceType → String
  | module => "module"
  | script => "script"

def all : List SourceType := [module, script]

def debugName : SourceType → String
  | module => "Module"
  | script => "Script"

end SourceType

namespace Dialect

def id : Dialect → String
  | typescript => "typescript"
  | tsx => "tsx"
  | javascript => "javascript"

def all : List Dialect := [typescript, tsx, javascript]

def debugName : Dialect → String
  | typescript => "TypeScript"
  | tsx => "Tsx"
  | javascript => "JavaScript"

end Dialect

structure Options where
  sourceType : SourceType := .module
  errorRecovery : Bool := true
  allowImportExportEverywhere : Bool := true
  dialect : Dialect := .typescript
  deriving DecidableEq, Repr, Inhabited

/-- The options that are set to something of their own. -/
structure Overrides where
  sourceType : Option SourceType := none
  errorRecovery : Option Bool := none
  allowImportExportEverywhere : Option Bool := none
  dialect : Option Dialect := none
  deriving DecidableEq, Repr, Inhabited

namespace Options

def withOverrides (base : Options) (o : Overrides) : Options where
  sourceType := o.sourceType.getD base.sourceType
  errorRecovery := o.errorRecovery.getD base.errorRecovery
  allowImportExportEverywhere :=
    o.allowImportExportEverywhere.getD base.allowImportExportEverywhere
  dialect := o.dialect.getD base.dialect

/-- The defaults with overrides. -/
def merged (o : Overrides) : Options := ({} : Options).withOverrides o

@[simp] theorem withOverrides_none (base : Options) : base.withOverrides {} = base := rfl

end Options

end ModuleGraph.Syntax
