/-
# Fetching

What is asked of a fetcher and what it answers. An answer arrives some time
after it was asked for.

Key definitions: `FetchRequest`, `Fetched`, `Fetcher`.
-/
import ModuleGraph.Candidate
import ModuleGraph.Failure

namespace ModuleGraph

structure FetchRequest where
  /-- The specifier as it is written. -/
  specifier : String
  /-- The path that the specifier stands for. -/
  relativePath : String
  deriving DecidableEq, Repr, Inhabited

/-- A module as a fetcher serves it. -/
structure Fetched where
  text : String
  hint : Hint := .unchanged
  deriving DecidableEq, Repr, Inhabited

abbrev FetchAnswer := Except FetchError Fetched

/-- An answer and how long it takes to arrive. -/
structure Delivery where
  answer : FetchAnswer
  delay : Nat := 0

abbrev Fetcher := FetchRequest → Delivery

end ModuleGraph
