import IndexedQuery.Row

namespace IndexedQuery

/-- What a slot holds while a query runs. A slot beyond the end of the bindings is unbound. -/
inductive Binding where
  | unbound
  /-- The current row of a source. -/
  | element (row : Row)
  /-- The value of a parameter. -/
  | value (v : Value)
deriving Inhabited

namespace Binding

def isBound : Binding → Bool
  | .unbound => false
  | _ => true

def row? : Binding → Option Row
  | .element row => some row
  | _ => none

def rowAt (bindings : List Binding) (slot : Nat) : Except Error Row :=
  match bindings.getD slot .unbound with
  | .element row => .ok row
  | .value _ => .error (.binding slot .expectedElement)
  | .unbound => .error (.binding slot .unbound)

def valueAt (bindings : List Binding) (slot : Nat) : Except Error Value :=
  match bindings.getD slot .unbound with
  | .value v => .ok v
  | .element _ => .error (.binding slot .expectedValue)
  | .unbound => .error (.binding slot .unbound)

end Binding

end IndexedQuery
