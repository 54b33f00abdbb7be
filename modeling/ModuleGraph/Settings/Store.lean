/-
# Loading and saving settings

Settings are the defaults, under what a file sets, under what the environment
sets. The file is looked for in a directory and in those above it.

Key definitions: `Settings.ofLayers`, `Settings.loadFrom`, `Settings.load`,
`Settings.save`.
-/
import ModuleGraph.FileTree
import ModuleGraph.Settings.Text
import ModuleGraph.Settings.Variable
import ModuleGraph.Toml.Reader

namespace ModuleGraph

/-- Why settings cannot be loaded. -/
inductive SettingsError where
  /-- The file is not UTF-8, or not TOML. -/
  | unreadable
  /-- The layers do not make settings. -/
  | mismatch (m : Mismatch)
  deriving Inhabited

/-- Why settings cannot be saved. -/
inductive SaveError where
  /-- The path has no directory above it. -/
  | invalidPath
  | path (e : PathError)
  deriving Inhabited

def SaveError.message : SaveError → String
  | invalidPath => "Invalid path"
  | path e => e.message

namespace Settings

/-! ### Layers -/

/-- The document that a file and variables make, over the defaults. -/
def layers (file : Document) (env : Environment) : Document :=
  ((({} : Settings).document.overlaid file).overlaid (Variable.layer env)).sorted

def ofLayers (file : Document) (env : Environment) : Except SettingsError Settings :=
  match Settings.reader .settings (layers file env) with
  | .ok s => .ok s
  | .error m => .error (.mismatch m)

/-- What a file sets; a file that is not there sets nothing. -/
def ofFile (file : Option FileTree) (env : Environment) : Except SettingsError Settings :=
  match file with
  | some (.file (some text)) =>
    match Toml.parse? text with
    | some entries => ofLayers (.table entries) env
    | none => .error .unreadable
  | some (.file none) => .error .unreadable
  | _ => ofLayers (.table []) env

/-! ### Finding the file -/

/-- A place and those above it, the nearest first. -/
def ancestors (place : Place) : List Place :=
  (List.range (place.length + 1)).map fun n => place.take (place.length - n)

/-- The file that a path leads to: a relative one from the current directory
or, if there is none, from the nearest above it. A directory is taken as a place
to start from, not as a path in front of the other, so that what is measured
against the limit is the relative path alone. -/
def findFile (tree : FileTree) (current : Place) (path : String) : Option FileTree :=
  if Path.isAbsolute path then
    if tree.isFile current path then tree.find? current path else none
  else
    ((ancestors current).find? fun place => tree.isFile place path).bind fun place =>
      tree.find? place path

def loadFrom (tree : FileTree) (current : Place) (path : String) (env : Environment) :
    Except SettingsError Settings :=
  ofFile (findFile tree current path) env

/-- The directory of a workspace that holds its settings. -/
def directory : String := ".declink"

def fileName : String := "settings.toml"

def workspacePath : String := Path.join directory fileName

/-- Loads the settings of the nearest workspace: the nearest directory with one
for settings, whether the file is in it or not. -/
def load (tree : FileTree) (current : Place) (env : Environment) :
    Except SettingsError Settings :=
  match (ancestors current).find? fun place => tree.isDirectory place directory with
  | some place =>
    let file := if tree.isFile place workspacePath then tree.find? place workspacePath else none
    ofFile file env
  | none => loadFrom tree current workspacePath env

/-! ### Saving -/

/-- Writes settings to a path, making the directories on the way. -/
def save (s : Settings) (tree : FileTree) (current : Place) (path : String) :
    Except SaveError FileTree :=
  match Path.parent? path with
  | none => .error .invalidPath
  | some parent =>
    match tree.makeDirectories current parent with
    | .error e => .error (.path e)
    | .ok tree =>
      match tree.write current path (some s.text) with
      | .error e => .error (.path e)
      | .ok tree => .ok tree

end Settings

end ModuleGraph
