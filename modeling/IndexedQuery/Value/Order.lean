import IndexedQuery.Value

namespace IndexedQuery

namespace Value

/-- The place of a value's type when values of different types are compared. -/
def typeRank : Value → Nat
  | .null => 0
  | .boolean _ => 1
  | .int64 _ => 2
  | .float64 _ => 3
  | .string _ => 4
  | .dateTime _ => 5

/-- Values of one type have their natural order, an integer and a float are compared by size with
the integer first on a tie, and all other pairs go by type. -/
protected def compare : Value → Value → Ordering
  | .boolean a, .boolean b => Ord.compare a b
  | .int64 a, .int64 b => Ord.compare a b
  | .float64 a, .float64 b => Ord.compare a b
  | .int64 a, .float64 b => (Ord.compare (.ofInt a.toInt) b).then .lt
  | .float64 a, .int64 b => (Ord.compare a (.ofInt b.toInt)).then .gt
  | .string a, .string b => Ord.compare a b
  | .dateTime a, .dateTime b => Ord.compare a b
  | a, b => Ord.compare a.typeRank b.typeRank

instance : Ord Value where
  compare := Value.compare

/-- Equality goes by the order, so the two zeros are equal, and so are all NaNs, but an integer is
equal to no float. -/
instance : BEq Value where
  beq a b := compare a b == .eq

/-- The greater of two values, the second if they are equal. -/
def max (a b : Value) : Value :=
  if (compare a b).isGT then a else b

end Value

/-- The elements in ascending order, equal ones in the order they had. -/
def ascending {α : Type} [Ord α] (l : List α) : List α :=
  l.mergeSort fun a b => (compare a b).isLE

end IndexedQuery
