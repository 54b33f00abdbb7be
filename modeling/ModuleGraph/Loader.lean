/-
# Loading

A load parses a text, records it with its references, and dispatches a branch
for every reference whose candidate is neither loading nor loaded. A branch
fetches its module and loads the text it gets in turn, as a declaration. A
load is done when all its branches are, and fails with the first of their
failures in the order of dispatch.

Loads of a session overlap: what a `Task` does between two fetches it does at
once, and between its steps those of others may come. A dispatch marks all its
candidates as loading before any of them is fetched, so that no module is
fetched twice at a time and a cycle comes to an end.

Key definitions: `Task`, `Task.outcome?`, `Workspace`, `expand`, `Branch.start`,
`Branch.receive`.
-/
import ModuleGraph.Fetch
import ModuleGraph.Registry
import ModuleGraph.Service
import ModuleGraph.Settings
import ModuleGraph.Syntax.Lowering

namespace ModuleGraph

/-! ### Loaders -/

structure Loader where
  /-- Whether modules can be fetched. -/
  fetches : Bool := false
  /-- Whether a buffer is opened for every registered declaration. -/
  declarationModel : Bool := false
  overrides : Syntax.Overrides := {}
  dependencyRoot : String := defaultDependencyRoot
  declarationSuffix : String := defaultDeclarationSuffix
  /-- How texts are read. -/
  reader : Syntax.Reader := Syntax.parse

instance : Inhabited Loader := ⟨{}⟩

namespace Loader

def ofSettings (s : Settings) : Loader where
  declarationModel := s.loader.declarationModel
  overrides := s.parser
  dependencyRoot := s.resolver.dependencyRoot
  declarationSuffix := s.resolver.declarationSuffix

def parse (l : Loader) (text : String) : Option Json :=
  Syntax.treeBy l.reader (Syntax.Options.merged l.overrides) text

/-- The identifier under which a declaration is registered. -/
def declarationOf (l : Loader) (identifier : String) : String :=
  identifier ++ l.declarationSuffix

@[simp] theorem declarationOf_inj (l : Loader) {identifier other : String} :
    l.declarationOf identifier = l.declarationOf other ↔ identifier = other :=
  String.append_left_inj _

/-- A choice as it is shown: its name, if there is one. -/
def shown : Option String → String
  | none => "None"
  | some name => "Some(" ++ name ++ ")"

/-- The fields of a record as they are shown. -/
def shownRecord (name : String) (fields : List (String × String)) : String :=
  name ++ " \x7b " ++ ", ".intercalate (fields.map fun f => f.1 ++ ": " ++ f.2) ++ " \x7d"

def shownOverrides (o : Syntax.Overrides) : String :=
  shownRecord "ParseOptionsOverride"
    [("source_type", shown (o.sourceType.map Syntax.SourceType.debugName)),
      ("error_recovery", shown (o.errorRecovery.map toString)),
      ("allow_import_export_everywhere", shown (o.allowImportExportEverywhere.map toString)),
      ("dialect", shown (o.dialect.map Syntax.Dialect.debugName))]

/-- The options of a loader as they are shown. -/
def describe (l : Loader) : String :=
  shownRecord "LoaderOptions"
    [("fetcher", shown (if l.fetches then some (Text.quoted "<fetcher>") else none)),
      ("declaration_model", toString l.declarationModel),
      ("parse_overrides", shownOverrides l.overrides),
      ("dependency_root", Text.quoted l.dependencyRoot),
      ("declaration_suffix", Text.quoted l.declarationSuffix)]

def candidate (l : Loader) (identifier : String) (r : Reference) : Candidate :=
  .of identifier r.value l.dependencyRoot

/-- The references of a tree with their candidates; without a fetcher there is
nothing to resolve. -/
def resolve (l : Loader) (identifier : String) (tree : Json) : List (Reference × Candidate) :=
  if l.fetches then (references tree).map fun ref => (ref, l.candidate identifier ref) else []

end Loader

structure LoadRequest where
  text : String
  identifier : String
  language : Language
  /-- Whether the text was fetched, and is to be registered. -/
  declaration : Bool := false
  deriving DecidableEq, Repr, Inhabited

/-! ### Tasks -/

/-- A dispatched reference. -/
structure Branch where
  loader : Loader
  specifier : String
  candidate : Candidate
  language : Language
  deriving Inhabited

namespace Branch

def request (b : Branch) : FetchRequest := ⟨b.specifier, b.candidate.relativePath⟩

/-- The identifier that is marked while the branch is under way. -/
def identifier (b : Branch) : String := b.candidate.identifier

/-- The identifier under which what was fetched is known. -/
def resolved (b : Branch) (fetched : Fetched) : String :=
  fetched.hint.apply b.candidate.identifier b.candidate.assumesEntryPoint

end Branch

abbrev Outcome := Except LoadError Unit

/-- How far a load has come. -/
inductive Task where
  /-- It has not begun. -/
  | load (loader : Loader) (request : LoadRequest)
  /-- A branch was dispatched, and its fetch has not begun. -/
  | queued (branch : Branch)
  /-- A fetch is under way, with what will be answered and when. -/
  | fetching (branch : Branch) (answer : FetchAnswer) (due : Nat)
  /-- It goes on in several tasks, in the order of dispatch. -/
  | joined (tasks : List Task)
  | settled (outcome : Outcome)
  deriving Inhabited

namespace Task

/-- The outcome of tasks: the first failure, once all have an outcome. -/
def combine : List (Option Outcome) → Option Outcome
  | [] => some (.ok ())
  | o :: rest => do
    let first ← o
    let others ← combine rest
    some (match first with
      | .ok () => others
      | .error e => .error e)

mutual
def outcome? : Task → Option Outcome
  | settled o => some o
  | joined tasks => combine (outcomes tasks)
  | load .. => none
  | queued _ => none
  | fetching .. => none

def outcomes : List Task → List (Option Outcome)
  | [] => []
  | t :: rest => outcome? t :: outcomes rest
end

end Task

/-! ### Steps -/

/-- What the loads of a session share. -/
structure Workspace where
  registry : Registry := {}
  host : ServiceHost := default
  /-- Every fetch, in the order in which they began. -/
  fetches : List FetchRequest := []
  deriving Inhabited

namespace Workspace

/-- Registers a fetched text. -/
def declare (l : Loader) (text identifier : String) (language : Language) (w : Workspace) :
    Workspace :=
  let name := l.declarationOf identifier
  { w with
    host := w.host.map fun s =>
      let s := s.register text name language
      if l.declarationModel then s.openBuffer text name else s }

end Workspace

/-- Dispatches the references of a text: those that may be loaded begin to. -/
def dispatch (l : Loader) (language : Language) :
    List (Reference × Candidate) → Registry → List Branch × Registry
  | [], r => ([], r)
  | (ref, c) :: rest, r =>
    let (branches, registry) := dispatch l language rest (r.beginLoad c.identifier)
    (if r.mayLoad c.identifier then ⟨l, ref.value, c, language⟩ :: branches else branches, registry)

/-- Records a parsed text and dispatches its references. -/
def recordAndDispatch (l : Loader) (request : LoadRequest) (tree : Json) (w : Workspace) :
    Task × Workspace :=
  let candidates := l.resolve request.identifier tree
  let filepaths := candidates.map fun p => p.2.identifier
  let registry := w.registry.record request.identifier tree filepaths
  let (branches, registry) := dispatch l request.language candidates registry
  (.joined (branches.map .queued), { w with registry })

/-- What a load does before its branches: an empty text is nothing to load,
and a text without a tree has no references. -/
def expand (l : Loader) (request : LoadRequest) (w : Workspace) : Task × Workspace :=
  if request.text.isEmpty then (.settled (.ok ()), w)
  else
    let w := if request.declaration then
      w.declare l request.text request.identifier request.language else w
    match l.parse request.text with
    | none => (.settled (.ok ()), w)
    | some tree => recordAndDispatch l request tree w

namespace Branch

/-- Begins the fetch of a branch, which will be answered as delivered. -/
def start (b : Branch) (delivery : Delivery) (now : Nat) (w : Workspace) : Task × Workspace :=
  (.fetching b delivery.answer (now + delivery.delay),
    { w with fetches := w.fetches ++ [b.request] })

/-- Takes note of where a module was found. The answer is whether the text is
still to be loaded: a candidate that leads to another identifier loads it only
if nothing else has. -/
def settle (b : Branch) (resolved : String) (r : Registry) : Bool × Registry :=
  if resolved = b.identifier then (true, r.setStatus resolved .success)
  else
    (r.mayLoad resolved,
      ((r.beginLoad resolved).setStatus b.identifier .success).setStatus resolved .success)

/-- Receives what was fetched. -/
def receive (b : Branch) (answer : FetchAnswer) (w : Workspace) : Task × Workspace :=
  match answer with
  | .error cause =>
    (.settled (.error ⟨b.specifier, b.identifier, cause⟩),
      { w with registry := w.registry.setStatus b.identifier .error })
  | .ok fetched =>
    let (fresh, registry) := b.settle (b.resolved fetched) w.registry
    let w := { w with registry }
    if fresh then expand b.loader ⟨fetched.text, b.resolved fetched, b.language, true⟩ w
    else (.settled (.ok ()), w)

end Branch

end ModuleGraph
