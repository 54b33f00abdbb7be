/-
# Documents

A value as a settings file, an environment variable or a JSON text gives it,
before it is known what it is meant to be. Integers are apart by whether they
are written with a sign in mind; a `Mismatch` says what was found where
something else was expected.

Key definitions: `Document`, `Document.ofJson`, `Mismatch`, `Mismatch.message`.
-/
import ModuleGraph.Json
import ModuleGraph.Text.Quoted

namespace ModuleGraph

inductive Document where
  | empty
  | bool (value : Bool)
  | signed (value : Int)
  | unsigned (value : Nat)
  | float (value : Double)
  | text (value : String)
  | letter (value : Char)
  | list (items : List Document)
  | table (entries : List (String × Document))
  deriving Repr, Inhabited

namespace Document

mutual
/-- A JSON value as a document: its integers are signed if they are negative. -/
def ofJson : Json → Document
  | .null => empty
  | .bool b => bool b
  | .int n => if n < 0 then signed n else unsigned n.toNat
  | .float d => float d
  | .string s => text s
  | .array items => list (ofItems items)
  | .object members => table (ofMembers members)

def ofItems : List Json → List Document
  | [] => []
  | v :: rest => ofJson v :: ofItems rest

def ofMembers : List (String × Json) → List (String × Document)
  | [] => []
  | (name, v) :: rest => (name, ofJson v) :: ofMembers rest
end

end Document

/-- Where a document comes from: a JSON text, or the layers of settings. The
two are read by the same rules but for a few, and speak of mismatches in
words of their own. -/
inductive Origin where
  | json
  | settings
  deriving DecidableEq, Repr, Inhabited

namespace Document

/-- How a message names what was found. -/
def describe : Origin → Document → String
  | .json, empty => "null"
  | .settings, empty => "unit"
  | .json, bool b => "boolean `" ++ toString b ++ "`"
  | .settings, bool b => "bool " ++ toString b
  | .json, signed n => "integer `" ++ toString n ++ "`"
  | .settings, signed n => "signed int `" ++ toString n ++ "`"
  | .json, unsigned n => "integer `" ++ toString n ++ "`"
  | .settings, unsigned n => "unsigned int `" ++ toString n ++ "`"
  | .json, float d => "floating point `" ++ d.scientific ++ "`"
  | .settings, float d => "float `" ++ d.text ++ "`"
  | _, text s => "string " ++ Text.quoted s
  | _, letter c => "string " ++ Text.quoted (String.singleton c)
  | _, list _ => "sequence"
  | _, table _ => "map"

end Document

/-! ### Mismatches -/

inductive Fault where
  | wrongType (found : Document) (expected : String)
  | wrongValue (found : Document) (expected : String)
  | wrongLength (found : Nat) (expected : String)
  | unknownVariant (found : String) (expected : List String)
  | missingField (name : String)
  deriving Repr, Inhabited

namespace Fault

/-- The name of the fault among those of settings. -/
def kind : Fault → String
  | wrongType .. => "InvalidType"
  | wrongValue .. => "InvalidValue"
  | wrongLength .. => "InvalidLength"
  | unknownVariant .. => "UnknownVariant"
  | missingField _ => "MissingField"

def ticked (s : String) : String := "`" ++ s ++ "`"

/-- The names that were expected instead of another. -/
def oneOf : List String → String
  | [] => "none"
  | [a] => ticked a
  | [a, b] => ticked a ++ " or " ++ ticked b
  | names => "one of " ++ ", ".intercalate (names.map ticked)

def message : Origin → Fault → String
  | .json, wrongType v expected => "invalid type: " ++ v.describe .json ++ ", expected " ++ expected
  | .settings, wrongType v expected =>
    "invalid type: found " ++ v.describe .settings ++ ", expected " ++ expected
  | .json, wrongValue v expected =>
    "invalid value: " ++ v.describe .json ++ ", expected " ++ expected
  | .settings, wrongValue v expected =>
    "invalid value " ++ v.describe .settings ++ ", expected " ++ expected
  | _, wrongLength n expected => "invalid length " ++ toString n ++ ", expected " ++ expected
  | .json, unknownVariant name expected =>
    "unknown variant " ++ ticked name ++ ", expected " ++ oneOf expected
  | .settings, unknownVariant name expected =>
    "unknown variant: found " ++ ticked name ++ ", expected " ++ ticked (oneOf expected)
  | _, missingField name => "missing field " ++ ticked name

end Fault

/-- A fault and the names on the way to where it is. -/
structure Mismatch where
  path : List String := []
  fault : Fault
  deriving Repr, Inhabited

namespace Mismatch

/-- The mismatch, seen from the table that has it under a name. -/
def under (name : String) (m : Mismatch) : Mismatch := { m with path := name :: m.path }

def message (origin : Origin) (m : Mismatch) : String := m.fault.message origin

end Mismatch

end ModuleGraph
