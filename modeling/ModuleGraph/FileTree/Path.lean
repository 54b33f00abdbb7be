/-
# Paths of files

Paths are texts cut at slashes. An absolute path begins with one; a path that
is joined to another stands behind it, unless it is absolute.

Key definitions: `Path.join`, `Path.parent?`.
-/
import ModuleGraph.Text.Segments

namespace ModuleGraph.Path

open Text

def isAbsolute (path : String) : Bool := path.toList.head? == some '/'

def endsWithSlash (path : String) : Bool := path.toList.getLast? == some '/'

/-- The path `path`, seen from the directory `base`. -/
def join (base path : String) : String :=
  if isAbsolute path then path
  else if base.isEmpty || endsWithSlash base then base ++ path
  else base ++ "/" ++ path

/-- The segments of a path, as texts. -/
def parts (path : String) : List String := (segments path.toList).map String.ofList

/-- The segments that say something: no empty ones, and a dot only in front. -/
def components (path : String) : List String :=
  match parts path with
  | [] => []
  | first :: rest =>
    let rest := rest.filter fun s => s != "" && s != "."
    if first == "" then rest else first :: rest

/-- The path without its last component; a path without one has no parent. -/
def parent? (path : String) : Option String :=
  match components path with
  | [] => none
  | c :: cs =>
    let shorter := "/".intercalate (c :: cs).dropLast
    some (if isAbsolute path then "/" ++ shorter else shorter)

/-- Whether a segment between slashes or backslashes is `..`. -/
def climbs (path : String) : Bool :=
  (segments (path.toList.map fun c => if c = '\\' then '/' else c)).contains ['.', '.']

end ModuleGraph.Path
