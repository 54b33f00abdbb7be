/-
# Fetching from a file tree

Serves modules from the files below a root directory. A path that begins with
a slash is one below the root, any other one below its package directory; a
path with a segment `..` is refused.

A request is answered by the first file among: the path itself, the path with
a declaration suffix, the path with the suffix of the language, and, if the
path is a directory, the file that its manifest names for types and then its
index files.

Key definitions: `FileFetcher`, `FileFetcher.fetch`.
-/
import ModuleGraph.Fetch
import ModuleGraph.FileTree
import ModuleGraph.Json.Reader
import ModuleGraph.Language

namespace ModuleGraph

structure FileFetcher where
  root : String
  language : Language
  /-- What the identifiers of packages begin with. -/
  dependencyRoot : String := defaultDependencyRoot
  deriving Repr, Inhabited

namespace FileFetcher

open Text

def scheme : List Char := "file://".toList

/-- The place below the root that a request is about, unless it climbs. -/
def basePath? (f : FileFetcher) (relativePath : String) : Option String :=
  let path := withoutPrefix scheme relativePath.toList
  if Path.climbs (String.ofList path) then none
  else if path.head? = some '/' then
    some (Path.join f.root (String.ofList (path.dropWhile (· == '/'))))
  else some (Path.join (Path.join f.root "node_modules") (String.ofList path))

def suffixes (f : FileFetcher) : List String := ["d.ts", f.language.suffix]

/-- The files that a path may stand for. -/
def spellings (f : FileFetcher) (base : String) : List String :=
  base :: f.suffixes.map fun suffix => base ++ "." ++ suffix

/-- The index files of a directory. -/
def indexFiles (f : FileFetcher) (base : String) : List String :=
  f.suffixes.map fun suffix => Path.join base ("index." ++ suffix)

/-! ### Manifests -/

/-- The file that a manifest names for types. -/
def typesOf? (manifest : Json) : Option String :=
  (((manifest.get? "types").bind Json.asString?)).orElse fun _ =>
    (manifest.get? "typings").bind Json.asString?

/-- The deepest nesting that a manifest may have. -/
def manifestDepth : Nat := 127

/-- The types entry of a manifest's text. A text that is not JSON has none,
and an entry that climbs does not count. -/
def entryOfText? (text : String) : Option String :=
  ((Json.parse? manifestDepth text).bind typesOf?).filter fun entry => !Path.climbs entry

/-! ### Reading -/

def unreadable (path : String) : FetchError :=
  .unreadable path "stream did not contain valid UTF-8"

/-- The text of a file. -/
def read (files : FileTree) (current : Place) (path : String) : Except FetchError String :=
  match files.text? current path with
  | some text => .ok text
  | none => .error (unreadable path)

/-- The types entry of a directory's manifest, if there is one. -/
def entry? (files : FileTree) (current : Place) (base : String) :
    Except FetchError (Option String) :=
  let manifest := Path.join base "package.json"
  if files.isFile current manifest then
    return entryOfText? (← read files current manifest)
  else .ok none

def serve (files : FileTree) (current : Place) (path : String) (hint : Hint) :
    Except FetchError Fetched :=
  return { text := ← read files current path, hint := hint }

/-! ### Identifiers -/

def withoutSuffix (suffix text : List Char) : Option (List Char) :=
  if suffix.isSuffixOf text then some (text.take (text.length - suffix.length)) else none

/-- A path without the `./` it begins with, however often. -/
def withoutDots : List Char → List Char
  | '.' :: '/' :: rest => withoutDots rest
  | path => path

/-- The identifier of a package's types entry: it has no suffix, and stands
below the path of the request. -/
def identifierFor (f : FileFetcher) (relativePath entry : String) : String :=
  let entry := withoutDots entry.toList
  let entry := ((withoutSuffix ".d.ts".toList entry).orElse fun _ =>
    withoutSuffix ".ts".toList entry).getD entry
  let base := (relativePath.toList.reverse.dropWhile (· == '/')).reverse
  let known := base.head? = some '/' || scheme.isPrefixOf base
  String.ofList ((if known then [] else f.dependencyRoot.toList) ++ base ++ '/' :: entry)

/-! ### Fetching -/

/-- Serves a directory: the types entry of its manifest, else an index file. -/
def fetchDirectory (f : FileFetcher) (files : FileTree) (current : Place)
    (relativePath base : String) : Except FetchError Fetched := do
  let entry ← entry? files current base
  match entry.filter fun entry => files.isFile current (Path.join base entry) with
  | some entry =>
    serve files current (Path.join base entry) (.renamed (f.identifierFor relativePath entry))
  | none =>
    match (f.indexFiles base).find? (files.isFile current) with
    | some path => serve files current path .directory
    | none => .error (.notFound relativePath)

/-- Answers a request from the files, seen from the current directory. -/
def fetch (f : FileFetcher) (files : FileTree) (current : Place) (relativePath : String) :
    Except FetchError Fetched :=
  match f.basePath? relativePath with
  | none => .error (.notFound relativePath)
  | some base =>
    match (f.spellings base).find? (files.isFile current) with
    | some path => serve files current path .unchanged
    | none =>
      if files.isDirectory current base then f.fetchDirectory files current relativePath base
      else .error (.notFound relativePath)

end FileFetcher

end ModuleGraph
