/-
# File trees

A directory tree as a value. A path is followed segment by segment from a
directory, which must be one at every step: an empty segment and a dot stay,
two dots go back to the directory above, and a name goes down.

The answers to a path that cannot be followed, and to a directory or a file
that cannot be made, are those of a Linux system.

Key definitions: `FileTree`, `FileTree.follow`, `FileTree.isFile`,
`FileTree.makeDirectories`, `FileTree.write`.
-/
import ModuleGraph.FileTree.Path
import ModuleGraph.Table

namespace ModuleGraph

inductive FileTree where
  /-- A file with its text; none if its bytes are not UTF-8. -/
  | file (text : Option String)
  | directory (entries : List (String × FileTree))
  deriving Inhabited

/-- Why a path leads nowhere, or nothing can be made there. -/
inductive PathError where
  | missing
  | occupied
  | notDirectory
  | isDirectory
  | nameTooLong
  | nul
  deriving DecidableEq, Repr, Inhabited

namespace PathError

def message : PathError → String
  | missing => "No such file or directory (os error 2)"
  | occupied => "File exists (os error 17)"
  | notDirectory => "Not a directory (os error 20)"
  | isDirectory => "Is a directory (os error 21)"
  | nameTooLong => "File name too long (os error 36)"
  | nul => "file name contained an unexpected NUL byte"

end PathError

/-- A place in a tree: the names on the way from its root. -/
abbrev Place := List String

namespace FileTree

/-! ### Looking -/

def child? (name : String) : FileTree → Option FileTree
  | file _ => none
  | directory entries => Table.get? entries name

def at? (tree : FileTree) : Place → Option FileTree
  | [] => some tree
  | name :: names => (tree.child? name).bind fun t => t.at? names

def isDirectoryAt (tree : FileTree) (place : Place) : Bool :=
  match tree.at? place with
  | some (directory _) => true
  | _ => false

/-- No path has so many bytes, and no name more than `nameLimit`. -/
def pathLimit : Nat := 4096

def nameLimit : Nat := 255

/-- One step on a path, from a place in the tree. -/
def step (tree : FileTree) (place : Place) (segment : String) : Except PathError Place :=
  if !tree.isDirectoryAt place then .error .notDirectory
  else if segment = "" ∨ segment = "." then .ok place
  else if segment = ".." then .ok place.dropLast
  else if nameLimit < segment.utf8ByteSize then .error .nameTooLong
  else if (tree.at? (place ++ [segment])).isSome then .ok (place ++ [segment])
  else .error .missing

/-- Takes the steps of a path one after another. -/
def followAll (tree : FileTree) : Place → List String → Except PathError Place
  | place, [] => .ok place
  | place, segment :: rest => do
    let place ← tree.step place segment
    tree.followAll place rest

/-- Where a path begins, and its steps from there. -/
def stepsFrom (current : Place) (path : String) : Place × List String :=
  if Path.isAbsolute path then ([], (Path.parts path).drop 1) else (current, Path.parts path)

/-- The place that a path leads to from the current one. -/
def follow (tree : FileTree) (current : Place) (path : String) : Except PathError Place :=
  if path.isEmpty then .error .missing
  else if path.toList.contains '\x00' then .error .nul
  else if pathLimit ≤ path.utf8ByteSize then .error .nameTooLong
  else
    let (start, steps) := stepsFrom current path
    tree.followAll start steps

/-- What stands at the end of a path. -/
def find? (tree : FileTree) (current : Place) (path : String) : Option FileTree :=
  match tree.follow current path with
  | .ok place => tree.at? place
  | .error _ => none

def isFile (tree : FileTree) (current : Place) (path : String) : Bool :=
  match tree.find? current path with
  | some (file _) => true
  | _ => false

def isDirectory (tree : FileTree) (current : Place) (path : String) : Bool :=
  match tree.find? current path with
  | some (directory _) => true
  | _ => false

/-- The text of the file at the end of a path. -/
def text? (tree : FileTree) (current : Place) (path : String) : Option String :=
  match tree.find? current path with
  | some (file text) => text
  | _ => none

/-! ### Making -/

/-- Puts something at a place whose directory exists. -/
def put : FileTree → Place → FileTree → FileTree
  | _, [], new => new
  | file text, _ :: _, _ => file text
  | directory entries, name :: names, new =>
    match Table.get? entries name with
    | some t => directory (Table.put name (put t names new) entries)
    | none => directory (Table.put name new entries)

/-- The directory in which the last step of a path is taken, and that step;
slashes at the end do not count. -/
def followToLast (tree : FileTree) (current : Place) (path : String) :
    Except PathError (Place × String) :=
  if path.isEmpty then .error .missing
  else if path.toList.contains '\x00' then .error .nul
  else if pathLimit ≤ path.utf8ByteSize then .error .nameTooLong
  else
    let (start, steps) := stepsFrom current path
    let steps := (steps.reverse.dropWhile (· == "")).reverse
    match steps.getLast? with
    | none => .ok (start, ".")
    | some last => do
      let place ← tree.followAll start steps.dropLast
      if !tree.isDirectoryAt place then .error .notDirectory
      else if nameLimit < last.utf8ByteSize then .error .nameTooLong
      else .ok (place, last)

def isDots (segment : String) : Bool := segment == "." || segment == ".."

/-- Makes a directory at the end of a path. -/
def makeDirectory (tree : FileTree) (current : Place) (path : String) :
    Except PathError FileTree := do
  let (place, last) ← tree.followToLast current path
  if isDots last || (tree.at? (place ++ [last])).isSome then .error .occupied
  else .ok (tree.put (place ++ [last]) (directory []))

/-- Makes the directory at the end of a path and, if they are missing, those
on the way; `fuel` bounds the number of them. -/
def makeDirectoriesWithin (current : Place) : Nat → FileTree → String → Except PathError FileTree
  | 0, tree, _ => .ok tree
  | fuel + 1, tree, path =>
    if path.isEmpty then .ok tree
    else match tree.makeDirectory current path with
      | .ok tree => .ok tree
      | .error .missing => do
        let tree ← match Path.parent? path with
          | some parent => makeDirectoriesWithin current fuel tree parent
          | none => .ok tree
        match tree.makeDirectory current path with
        | .ok tree => .ok tree
        | .error e => if tree.isDirectory current path then .ok tree else .error e
      | .error e => if tree.isDirectory current path then .ok tree else .error e

def makeDirectories (tree : FileTree) (current : Place) (path : String) :
    Except PathError FileTree :=
  makeDirectoriesWithin current (path.length + 1) tree path

/-- Writes a file at the end of a path, in place of one that is there. -/
def write (tree : FileTree) (current : Place) (path : String) (text : Option String) :
    Except PathError FileTree := do
  let (place, last) ← tree.followToLast current path
  if Path.endsWithSlash path || isDots last || tree.isDirectoryAt (place ++ [last]) then
    .error .isDirectory
  else .ok (tree.put (place ++ [last]) (file text))

/-- Makes a file and the directories on the way to it. -/
def plant (tree : FileTree) (current : Place) (path : String) (text : Option String) :
    Except PathError FileTree := do
  let tree ← match Path.parent? path with
    | some parent => tree.makeDirectories current parent
    | none => .ok tree
  tree.write current path text

end FileTree

end ModuleGraph
