/-
# Failures of loading

Why a module could not be fetched, and what a load that met such a failure
reports. A failure has a code for programs, a message for people, and advice
on what to do about it.

Key definitions: `FetchError`, `LoadError`.
-/

namespace ModuleGraph

/-- Why a fetcher did not serve a module. -/
inductive FetchError where
  /-- Nothing is found under the path that was asked for. -/
  | notFound (path : String)
  /-- A file is there but cannot be read as text. -/
  | unreadable (path reason : String)
  /-- The host that serves modules reports a failure of its own. -/
  | host (reason : String)
  deriving DecidableEq, Repr, Inhabited

namespace FetchError

def message : FetchError → String
  | notFound path => "Module not found at '" ++ path ++ "'"
  | unreadable path reason => "Failed to read module file '" ++ path ++ "': " ++ reason
  | host reason => "Host fetch failed: " ++ reason

def statusCode : FetchError → String
  | notFound _ => "MODULE_NOT_FOUND"
  | unreadable .. => "MODULE_READ_ERROR"
  | host _ => "HOST_FETCH_ERROR"

def suggestions : FetchError → List String
  | notFound _ => ["Check that the module exists under the fetcher's root"]
  | unreadable .. => ["Check that the file is readable"]
  | host _ => ["Check the host fetcher's connectivity and logs"]

end FetchError

/-- A module that a load asked for was not fetched: the specifier as it is
written, the identifier it was taken for, and the cause. -/
structure LoadError where
  specifier : String
  identifier : String
  cause : FetchError
  deriving DecidableEq, Repr, Inhabited

namespace LoadError

def message (e : LoadError) : String :=
  "Failed to fetch module '" ++ e.specifier ++ "' (resolved to '" ++ e.identifier ++ "'): " ++
    e.cause.message

def statusCode (e : LoadError) : String := e.cause.statusCode

def suggestions (e : LoadError) : List String :=
  match e.cause with
  | .notFound _ =>
    ["Check the import specifier for typos",
      "Make sure the package is installed under the dependency root"]
  | .unreadable .. =>
    ["Check that the file exists and you have read permissions",
      "Ensure the file is not locked by another process"]
  | .host _ =>
    ["The failed module is marked as errored; load the importing file again to retry"]

end LoadError

end ModuleGraph
