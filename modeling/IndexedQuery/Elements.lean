import IndexedQuery.Index.Cursor
import IndexedQuery.Source

namespace IndexedQuery

/-- The rows that a source expression has been resolved to. -/
inductive Elements where
  /-- Everything that a pass over the source gives. -/
  | scan (pass : Pass)
  /-- The rows under a key of an index. -/
  | indexed (rows : Cursor Row)
  /-- An index that has no row under the key. -/
  | empty

namespace Elements

/-- Whether an index gave the answer, be it that there is nothing. -/
def isIndexed : Elements → Bool
  | .scan _ => false
  | .indexed _ | .empty => true

/-- What is still to be read, in order. -/
def toPass : Elements → Pass
  | .scan pass => pass
  | .indexed rows => rows.rest.map .ok
  | .empty => []

def remaining : Elements → Nat
  | .scan pass => pass.length
  | .indexed rows => rows.remaining
  | .empty => 0

def next : Elements → Option (Except Error Row) × Elements
  | .scan [] => (none, .scan [])
  | .scan (item :: pass) => (some item, .scan pass)
  | .indexed rows => rows.next.map (·.map .ok) .indexed
  | .empty => (none, .empty)

def take : Nat → Elements → Pass × Elements
  | 0, e => ([], e)
  | n + 1, e =>
      match e.next with
      | (none, e) => ([], e)
      | (some item, e) => (e.take n).map (item :: ·) id

/-- All the rows, or the first error. -/
def rows (e : Elements) : Except Error (List Row) :=
  e.toPass.mapM id

def text : Elements → String
  | .scan _ => "Elements::Scan(..)"
  | .indexed rows => s!"Elements::Indexed({rows.remaining})"
  | .empty => "Elements::Empty"

end Elements

end IndexedQuery
