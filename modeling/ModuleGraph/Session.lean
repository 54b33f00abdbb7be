/-
# Sessions

A loader with all it works on: where modules come from, what has been loaded,
and a clock. Loads are asked for one after another or several at once, and a
report says what has happened since the last one.

Key definitions: `Session`, `Session.load`, `Session.report`, `Plugin`.
-/
import ModuleGraph.FileFetcher
import ModuleGraph.Loader.Schedule

namespace ModuleGraph

/-! ### Sources of modules -/

/-- A module that is served from memory. -/
structure CatalogModule where
  text : String
  hint : Hint := .unchanged
  delay : Nat := 0
  /-- Why it is not served. -/
  failure : Option FetchError := none
  deriving Repr, Inhabited

/-- Where modules come from. -/
inductive ModuleSource where
  | nowhere
  /-- Modules in memory, by the path that is asked for. -/
  | catalog (modules : Table String CatalogModule)
  /-- The files of a tree, seen from its root. -/
  | files (fetcher : FileFetcher) (tree : FileTree)
  deriving Inhabited

namespace ModuleSource

def exists? : ModuleSource → Bool
  | nowhere => false
  | _ => true

/-- The answer of a catalog: what is unknown is not found at once. -/
def fromCatalog (modules : Table String CatalogModule) (request : FetchRequest) : Delivery :=
  match modules.get? request.relativePath with
  | none => { answer := .error (.notFound request.relativePath) }
  | some m =>
    match m.failure with
    | some e => { answer := .error e, delay := m.delay }
    | none => { answer := .ok ⟨m.text, m.hint⟩, delay := m.delay }

def fetcher : ModuleSource → Fetcher
  | nowhere, request => { answer := .error (.notFound request.relativePath) }
  | catalog modules, request => fromCatalog modules request
  | files f tree, request => { answer := f.fetch tree [] request.relativePath }

/-- Puts a module into a catalog, in place of the one for its path. -/
def put (path : String) (m : CatalogModule) : ModuleSource → ModuleSource
  | catalog modules => catalog (modules.put path m)
  | source => source

def remove (path : String) : ModuleSource → ModuleSource
  | catalog modules => catalog (modules.remove path)
  | source => source

end ModuleSource

/-! ### Sessions -/

/-- A tree that was recorded, and which recording it was. -/
structure HeldTree where
  stamp : Nat
  tree : Json
  deriving Inhabited

structure Session where
  loader : Loader := {}
  source : ModuleSource := .nowhere
  workspace : Workspace := {}
  clock : Nat := 0
  held : Table String HeldTree := []
  /-- The identifiers whose statuses are reported. -/
  known : List String := []
  /-- How many fetches and registrations have been reported. -/
  reportedFetches : Nat := 0
  reportedRegistrations : Nat := 0
  deriving Inhabited

/-- What has happened since the report before. -/
structure Report where
  time : Nat
  fetches : List FetchRequest
  /-- The identifiers that were registered. -/
  registered : List String
  /-- The identifiers of all recorded files. -/
  files : List String
  statuses : List (String × LoadStatus)
  deriving Inhabited

namespace Session

def registry (s : Session) : Registry := s.workspace.registry

def service (s : Session) : Service := s.workspace.host.service

def withRegistry (f : Registry → Registry) (s : Session) : Session :=
  { s with workspace := { s.workspace with registry := f s.workspace.registry } }

def withService (f : Service → Service) (s : Session) : Session :=
  { s with workspace := { s.workspace with host := s.workspace.host.map f } }

/-- Adds an identifier to those whose statuses are reported. -/
def know (identifier : String) (s : Session) : Session :=
  if s.known.contains identifier then s else { s with known := identifier :: s.known }

/-- The most jumps of the clock, and the deepest chain of modules, that a load
is followed through. -/
def patience : Nat := 1000000

/-- Runs loads at the same time, until each is settled. -/
def load (requests : List LoadRequest) (s : Session) : List (Option Outcome) × Session :=
  let (clock, task, workspace) := settle s.source.fetcher patience s.clock
    (.joined (requests.map (.load s.loader))) s.workspace
  let outcomes := match task with
    | .joined tasks => Task.outcomes tasks
    | t => [t.outcome?]
  (outcomes, { s with clock, workspace })

/-- The identifiers that the recorded files are about. -/
def mentioned (r : Registry) : List String :=
  r.files.flatMap fun file => file.1 :: file.2.filepaths

def report (s : Session) : Report × Session :=
  let s := (mentioned s.registry).foldl (fun s identifier => s.know identifier) s
  let history := s.service.history
  let statuses := s.known.mergeSort.filterMap fun identifier =>
    (s.registry.status? identifier).map (identifier, ·)
  ({ time := s.clock
     fetches := s.workspace.fetches.drop s.reportedFetches
     registered := (history.drop s.reportedRegistrations).map Registration.identifier
     files := s.registry.identifiers
     statuses },
    { s with
      reportedFetches := s.workspace.fetches.length
      reportedRegistrations := history.length })

/-! ### Modules -/

/-- Puts a module into the catalog; its target is reported from then on. -/
def putModule (path : String) (m : CatalogModule) (s : Session) : Session :=
  let s := { s with source := s.source.put path m }
  match m.hint with
  | .renamed identifier => s.know identifier
  | _ => s

def removeModule (path : String) (s : Session) : Session :=
  { s with source := s.source.remove path }

/-! ### Files -/

/-- Records a text as it is parsed without overrides. -/
def recordText (identifier text : String) (filepaths : List String) (s : Session) :
    Option FileInfo × Session :=
  match Syntax.parseTree {} text with
  | none => (none, s)
  | some tree =>
    let s := s.withRegistry (·.record identifier tree filepaths)
    (s.registry.fileInfo? identifier, s)

/-- Keeps the present tree of a file under a name. -/
def hold (identifier name : String) (s : Session) : Bool × Session :=
  match s.registry.fileInfo? identifier with
  | none => (false, s)
  | some info => (true, { s with held := s.held.put name ⟨info.stamp, info.tree⟩ })

/-- Whether a held tree is the present one of a file, and whether it is equal. -/
def compareHeld (name identifier : String) (s : Session) : Option (Bool × Bool) := do
  let held ← s.held.get? name
  let info ← s.registry.fileInfo? identifier
  some (held.stamp == info.stamp, held.tree == info.tree)

end Session

/-! ### The plugin of an editor -/

namespace Plugin

def name : String := "typescript"

/-- Whether the plugin handles the buffers of a language. -/
def isMatch (language : String) : Bool := (Language.ofId? language).isSome

/-- Processes a change of a buffer; other languages are ignored. -/
def parse (text identifier language : String) (s : Session) : Option Outcome × Session :=
  match Language.ofId? language with
  | none => (some (.ok ()), s)
  | some language =>
    let (outcomes, s) := s.load [{ text, identifier, language }]
    (outcomes.head?.join, s)

/-- A buffer is valid if nothing is reported for it, whatever its language. -/
def validate (identifier : String) (s : Session) : Except ValidationError Unit :=
  s.workspace.host.validate identifier

/-- Releases all that has been loaded. -/
def destroy (s : Session) : Session := s.withRegistry Registry.clear

end Plugin

end ModuleGraph
