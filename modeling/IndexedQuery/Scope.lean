import IndexedQuery.Elements
import IndexedQuery.Evaluator
import IndexedQuery.Session

namespace IndexedQuery

structure Config where
  /-- Whether conditions are searched for indexable sources at all. -/
  enabled : Bool
  /-- How many keys an index is expected to have. -/
  capacity : Nat
deriving DecidableEq

def Config.standard : Config :=
  ⟨true, 16⟩

/-- What all contexts of a query have in common. -/
structure Scope (σ : Type) where
  source : Source σ
  /-- The sources and parameters in scope; their positions are the binding slots. -/
  sources : List Expr
  registry : Registry
  config : Config

/-- Resolves a path to all rows of its source. -/
def Scope.scan {σ : Type} (scope : Scope σ) : Expr → Run σ Elements
  | .path p => do
      Run.report (.fullScan p.rootName)
      return .scan (← Run.read scope.source p.rootName)
  | e => throw (.notASource e.text)

end IndexedQuery
