import IndexedQuery.Error

namespace IndexedQuery

structure Row where
  id : Nat
  values : List Value
deriving BEq, Inhabited

/-- The value of the field at a position. -/
def Row.field (row : Row) (index : Nat) : Except Error Value :=
  match row.values[index]? with
  | some value => .ok value
  | none => .error (.fieldOutOfRange index row.values.length)

end IndexedQuery
