/-
# Specifiers

A specifier is the text by which a file names another. One that begins with a
slash, a backslash or a dot is a path from the file that uses it; any other
is bare and names a package.

A path is resolved against the identifier of the using file. The first
segment of that identifier, or the first two of a scoped one, is its root and
stays in place however often the path climbs.

Key definitions: `Specifier.isBare`, `Specifier.packageRoot`,
`Specifier.resolve`.
-/
import ModuleGraph.Text.Segments

namespace ModuleGraph.Specifier

open Text

/-- Whether a specifier names a package. -/
def isBare (specifier : String) : Bool :=
  match specifier.toList with
  | '/' :: _ => false
  | '\\' :: _ => false
  | '.' :: _ => false
  | _ => true

/-- How many segments the root of an identifier has: two for a scoped one. -/
def rootLength : List Char → Nat
  | '@' :: _ => 2
  | _ => 1

/-- The root of an identifier, and of a bare specifier its package. -/
def root (path : List Char) : List Char :=
  joinSegments ((segments path).take (rootLength path))

def packageRoot (specifier : String) : String := String.ofList (root specifier.toList)

/-- One segment of a path: it stays, climbs or descends. -/
def step (place : List (List Char)) (segment : List Char) : List (List Char) :=
  if segment = ['.'] then place
  else if segment = ['.', '.'] then place.dropLast
  else place ++ [segment]

/-- The segments below the root of the directory that a file is in. -/
def directory (path : List Char) : List (List Char) :=
  ((segments path).drop (rootLength path)).dropLast

/-- Where a path leads from a file. A path that begins with a slash begins at
the root, and is not looked into. -/
def resolvePath (base path : List Char) : List Char :=
  match path with
  | '/' :: _ => root base ++ path
  | _ => root base ++ ((segments path).foldl step (directory base)).flatMap ('/' :: ·)

def resolve (base specifier : String) : String :=
  String.ofList (resolvePath base.toList specifier.toList)

end ModuleGraph.Specifier
