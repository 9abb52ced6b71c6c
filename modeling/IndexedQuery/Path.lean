namespace IndexedQuery

/-- A source of rows, or a field of its rows. -/
inductive Path where
  | root (name : String)
  /-- The field at position `index` of the rows of `source`; `name` is what it is called. -/
  | field (source name : String) (index : Nat)
deriving DecidableEq, Inhabited

namespace Path

def rootName : Path → String
  | .root name => name
  | .field source _ _ => source

def toRoot (p : Path) : Path :=
  .root p.rootName

def isRoot : Path → Bool
  | .root _ => true
  | .field .. => false

def text : Path → String
  | .root name => name
  | .field source name _ => source ++ "." ++ name

/-- Sources come before fields; within each kind the parts decide, from left to right. -/
protected def compare : Path → Path → Ordering
  | .root a, .root b => Ord.compare a b
  | .root _, .field .. => .lt
  | .field .., .root _ => .gt
  | .field r n i, .field r' n' i' =>
      (Ord.compare r r').then ((Ord.compare n n').then (Ord.compare i i'))

instance : Ord Path where
  compare := Path.compare

end Path

end IndexedQuery
