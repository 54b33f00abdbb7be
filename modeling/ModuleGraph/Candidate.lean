/-
# Candidates

Where a specifier points before it has been fetched: a candidate identifier,
the path that is asked for, and whether the identifier is that of a package's
entry point. The fetched module may turn out to be another one; a `Hint` says
so, and applying it gives the identifier under which the module is known.

Key definitions: `Candidate`, `Candidate.of`, `Hint`, `Hint.apply`.
-/
import ModuleGraph.Specifier

namespace ModuleGraph

/-- What is appended to the identifier of a directory or a package. -/
def indexSuffix : String := "/index"

def defaultDependencyRoot : String := "file:///node_modules/"

def defaultDeclarationSuffix : String := ".d.ts"

structure Candidate where
  identifier : String
  /-- The identifier without the index suffix and the dependency root. -/
  relativePath : String
  assumesEntryPoint : Bool
  deriving DecidableEq, Repr, Inhabited

namespace Candidate

/-- Where a specifier points before an index suffix is considered. -/
def target (base specifier dependencyRoot : String) : String :=
  if Specifier.isBare specifier then dependencyRoot ++ specifier
  else Specifier.resolve base specifier

def withoutRoot (dependencyRoot target : String) : String :=
  String.ofList (Text.withoutPrefix dependencyRoot.toList target.toList)

/-- A specifier that names a whole package assumes its entry point. -/
def of (base specifier dependencyRoot : String) : Candidate :=
  let target := target base specifier dependencyRoot
  let whole := specifier == Specifier.packageRoot specifier
  { identifier := if whole then target ++ indexSuffix else target
    relativePath := withoutRoot dependencyRoot target
    assumesEntryPoint := whole }

end Candidate

/-- What a fetcher reports about the candidate it was asked for. -/
inductive Hint where
  /-- The candidate is right. -/
  | unchanged
  /-- The candidate is a directory, and its index file was served. -/
  | directory
  /-- The served module is known under another identifier. -/
  | renamed (identifier : String)
  deriving DecidableEq, Repr, Inhabited

namespace Hint

/-- The identifier of what was served. An entry point ends with the index
suffix already. -/
def apply (hint : Hint) (candidate : String) (assumesEntryPoint : Bool) : String :=
  match hint with
  | unchanged => candidate
  | directory =>
    if assumesEntryPoint then candidate
    else if candidate.toList.getLast? = some '/' then candidate ++ "index"
    else candidate ++ indexSuffix
  | renamed identifier => identifier

end Hint

end ModuleGraph
