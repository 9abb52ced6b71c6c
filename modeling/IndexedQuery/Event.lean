import IndexedQuery.Error
import IndexedQuery.Expr.Printer

namespace IndexedQuery

/-- What a session reports about its use of indexes. -/
inductive Event where
  | fullScan (root : String)
  /-- An index was asked for and is kept already. -/
  | reusedIndex (path : Path)
  | builtIndex (path : Path) (size keys : Nat)
  /-- From now on the index on `path` answers for `queried`. -/
  | answeredBy (queried : Expr) (path : Path)
  | specialized (condition : Expr) (indexed : Nat)
  /-- `key` reads a source that is bound at the same time as `queried` or after it. -/
  | keyNotBound (path : Path) (key queried : Expr)
  | keyNotCompiled (path : Path) (key : Expr) (cause : Error)
  | notIndexable (path : Path) (cause : Error)
  | keyFailed (queried : Expr) (path : Path) (cause : Error)
  | lookupFailed (queried : Expr) (cause : Error)
  | hit (queried : Expr) (path : Path) (key : Value)
  | miss (queried : Expr) (path : Path) (key : Value)
  | executed (indexed roots : Nat)

namespace Event

/-- Decisions about single candidates and lookups are traced; the rest is for debugging. -/
def isTrace : Event → Bool
  | .fullScan _ | .keyNotBound .. | .keyNotCompiled .. | .notIndexable .. | .keyFailed ..
  | .lookupFailed .. | .hit .. | .miss .. => true
  | .reusedIndex _ | .builtIndex .. | .answeredBy .. | .specialized .. | .executed .. => false

def message : Event → String
  | .fullScan root => "full scan of " ++ root
  | .reusedIndex path => "reusing cached index on " ++ path.text
  | .builtIndex path size keys =>
      s!"built index on {path.text}: {size} element(s), {keys} key(s)"
  | .answeredBy queried path => queried.text ++ " answered by index on " ++ path.text
  | .specialized condition indexed =>
      s!"specialized context for {condition.text}: {indexed} indexed source(s)"
  | .keyNotBound path key queried =>
      path.text ++ ": key " ++ key.text ++ " is not bound before " ++ queried.text
  | .keyNotCompiled path key cause =>
      path.text ++ ": key " ++ key.text ++ " not indexable: " ++ cause.message
  | .notIndexable path cause => path.text ++ ": not indexable: " ++ cause.message
  | .keyFailed queried path cause =>
      queried.text ++ ": key for " ++ path.text ++ " failed (" ++ cause.message ++ "), scanning"
  | .lookupFailed queried cause => queried.text ++ ": " ++ cause.message ++ ", scanning"
  | .hit queried path key =>
      queried.text ++ ": " ++ path.text ++ " hit for key " ++ key.text
  | .miss queried path key =>
      queried.text ++ ": " ++ path.text ++ " miss for key " ++ key.text
  | .executed indexed roots => s!"executed query: {indexed} of {roots} root(s) indexed"

def line (e : Event) : String :=
  (if e.isTrace then "TRACE " else "DEBUG ") ++ e.message

end Event

end IndexedQuery
