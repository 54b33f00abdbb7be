/-
# JSON values

Values as the documents of this library hold them: the members of an object
keep the order in which their names first came, and an integer stays apart
from a number that is not one.

Key definitions: `Json`, `Json.ofPairs`, `Json.get?`.
-/
import ModuleGraph.Number.Double
import ModuleGraph.Table

namespace ModuleGraph

inductive Json where
  | null
  | bool (value : Bool)
  | int (value : Int)
  | float (value : Double)
  | string (value : String)
  | array (items : List Json)
  | object (members : List (String × Json))
  deriving Repr, Inhabited

namespace Json

/-- The members that a list of names and values stands for: of two with one
name, the last. -/
def ofPairs (pairs : List (String × Json)) : Json :=
  object (pairs.foldl (fun members p => Table.put p.1 p.2 members) [])

def members : Json → Table String Json
  | object ms => ms
  | _ => []

def get? (value : Json) (name : String) : Option Json := value.members.get? name

def isObject : Json → Bool
  | object _ => true
  | _ => false

def asString? : Json → Option String
  | string s => some s
  | _ => none

mutual
/-- Equality of values, member by member in order. -/
def same : Json → Json → Bool
  | null, null => true
  | bool a, bool b => a == b
  | int a, int b => a == b
  | float a, float b => a == b
  | string a, string b => a == b
  | array a, array b => sameItems a b
  | object a, object b => sameMembers a b
  | _, _ => false

def sameItems : List Json → List Json → Bool
  | [], [] => true
  | a :: as, b :: bs => same a b && sameItems as bs
  | _, _ => false

def sameMembers : List (String × Json) → List (String × Json) → Bool
  | [], [] => true
  | (m, a) :: as, (n, b) :: bs => m == n && same a b && sameMembers as bs
  | _, _ => false
end

instance : BEq Json := ⟨same⟩

end Json

end ModuleGraph
