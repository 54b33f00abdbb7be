/-
# The language service

The service to which declarations are registered and which reports what is
wrong with a buffer. The one here keeps all in memory: every registration is
logged, the last one for an identifier and a language counts, and an empty
text takes a declaration away.

Key definitions: `Service`, `Service.register`, `Service.declaration?`,
`Service.declared`, `ValidationError`, `ServiceHost`.
Key theorems: `Service.declaration?_register`.
-/
import ModuleGraph.Language
import ModuleGraph.Table

namespace ModuleGraph

/-! ### Diagnostics -/

structure Diagnostic where
  message : String
  start : Nat
  stop : Nat
  /-- A code of the service's own. -/
  code : Option Nat
  deriving DecidableEq, Repr, Inhabited

structure Diagnostics where
  syntactic : List Diagnostic := []
  semantic : List Diagnostic := []
  deriving DecidableEq, Repr, Inhabited

def Diagnostics.isEmpty (d : Diagnostics) : Bool := d.syntactic.isEmpty && d.semantic.isEmpty

/-! ### Failures of validation -/

/-- The service cannot be reached. -/
structure Unavailable where
  reason : String
  deriving DecidableEq, Repr, Inhabited

namespace Unavailable

def message (e : Unavailable) : String := "Language service unavailable: " ++ e.reason

def statusCode (_ : Unavailable) : String := "SERVICE_UNAVAILABLE"

def suggestions (_ : Unavailable) : List String :=
  ["Restart the language service worker", "Validate again once the service is back"]

end Unavailable

inductive ValidationError where
  /-- The service reports diagnostics for a buffer. -/
  | rejected (identifier : String) (diagnostics : Diagnostics)
  | service (error : Unavailable)
  deriving DecidableEq, Repr, Inhabited

namespace ValidationError

def message : ValidationError → String
  | rejected identifier d =>
    "Buffer '" ++ identifier ++ "' has " ++ toString d.syntactic.length ++ " syntactic and " ++
      toString d.semantic.length ++ " semantic diagnostics"
  | service e => e.message

def statusCode : ValidationError → String
  | rejected .. => "DIAGNOSTICS_REPORTED"
  | service e => e.statusCode

def suggestions : ValidationError → List String
  | rejected .. => ["Fix the reported diagnostics and validate again"]
  | service e => e.suggestions

end ValidationError

/-! ### The service in memory -/

/-- A call that registers a text as the declaration of an identifier. -/
structure Registration where
  identifier : String
  language : Language
  text : String
  deriving DecidableEq, Repr, Inhabited

structure Service where
  /-- Every registration so far, in the order of the calls. -/
  history : List Registration := []
  declarations : Table (Language × String) String := []
  /-- The buffers opened for declarations. -/
  buffers : Table String String := []
  reported : Table String Diagnostics := []

namespace Service

/-- Logs a registration and lets it count; an empty text removes. -/
def register (text identifier : String) (language : Language) (s : Service) : Service :=
  { s with
    history := s.history ++ [⟨identifier, language, text⟩]
    declarations :=
      if text.isEmpty then s.declarations.remove (language, identifier)
      else s.declarations.put (language, identifier) text }

def unregister (identifier : String) (language : Language) (s : Service) : Service :=
  s.register "" identifier language

def openBuffer (text identifier : String) (s : Service) : Service :=
  { s with buffers := s.buffers.put identifier text }

def report (identifier : String) (d : Diagnostics) (s : Service) : Service :=
  { s with reported := s.reported.put identifier d }

def declaration? (s : Service) (identifier : String) (language : Language) : Option String :=
  s.declarations.get? (language, identifier)

/-- The identifiers with a declaration for a language, in order. -/
def declared (s : Service) (language : Language) : List String :=
  ((s.declarations.keys.filter fun key => key.1 == language).map Prod.snd).mergeSort

def buffer? (s : Service) (identifier : String) : Option String := s.buffers.get? identifier

def diagnostics (s : Service) (identifier : String) : Diagnostics :=
  (s.reported.get? identifier).getD {}

/-- A buffer is valid if nothing is reported for it. -/
def validate (s : Service) (identifier : String) : Except ValidationError Unit :=
  let d := s.diagnostics identifier
  if d.isEmpty then .ok () else .error (.rejected identifier d)

@[simp] theorem history_register (s : Service) (text identifier : String) (language : Language) :
    (s.register text identifier language).history =
      s.history ++ [⟨identifier, language, text⟩] := rfl

/-- A text that is registered counts, an empty one takes away, and the declarations of
other identifiers and languages stay. -/
theorem declaration?_register (s : Service) (text identifier name : String)
    (language other : Language) :
    (s.register text identifier language).declaration? name other =
      if identifier = name ∧ language = other then (if text.isEmpty then none else some text)
      else s.declaration? name other := by
  unfold register declaration?
  by_cases ht : text.isEmpty <;> by_cases hl : language = other <;>
    simp [ht, hl, Table.get?_put, Table.get?_remove]

@[simp] theorem history_openBuffer (s : Service) (text identifier : String) :
    (s.openBuffer text identifier).history = s.history := rfl

@[simp] theorem declaration?_openBuffer (s : Service) (text identifier name : String)
    (language : Language) :
    (s.openBuffer text identifier).declaration? name language = s.declaration? name language := rfl

end Service

/-! ### Hosts of a service -/

/-- What a session talks to: the service in memory, or one that cannot be
reached, which drops what it is told and answers no question. -/
inductive ServiceHost where
  | memory (service : Service)
  | offline (reason : String)

namespace ServiceHost

def service : ServiceHost → Service
  | memory s => s
  | offline _ => {}

def map (f : Service → Service) : ServiceHost → ServiceHost
  | memory s => memory (f s)
  | offline reason => offline reason

def validate (identifier : String) : ServiceHost → Except ValidationError Unit
  | memory s => s.validate identifier
  | offline reason => .error (.service ⟨reason⟩)

instance : Inhabited ServiceHost := ⟨memory {}⟩

@[simp] theorem map_id (host : ServiceHost) : host.map id = host := by
  cases host <;> rfl

end ServiceHost

end ModuleGraph
