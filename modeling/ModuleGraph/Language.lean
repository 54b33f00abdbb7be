/-
# Languages of an editor

The two languages whose buffers are loaded, by the identifier an editor uses
and the suffix of their files.

Key definitions: `Language`, `Language.id`, `Language.ofId?`.
-/

namespace ModuleGraph

inductive Language where
  | javascript
  | typescript
  deriving DecidableEq, Repr, Inhabited

namespace Language

def all : List Language := [javascript, typescript]

def id : Language → String
  | javascript => "javascript"
  | typescript => "typescript"

/-- The suffix of files, without its dot. -/
def suffix : Language → String
  | javascript => "js"
  | typescript => "ts"

def ofId? (id : String) : Option Language := all.find? fun language => language.id == id

end Language

end ModuleGraph
