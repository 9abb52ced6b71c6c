import IndexedQuery.Error

/-!
What the operators compute. Operands come as outcomes, values or errors, so that an operator that
stops at its deciding operand never sees the errors behind it.
-/

namespace IndexedQuery

abbrev Outcome := Except Error Value

/-- A value as the outcome of a condition; null counts as false. -/
def Value.truth : Value → Except Error Bool
  | .boolean b => .ok b
  | .null => .ok false
  | v => .error (.typeMismatch .boolean v.dataType?)

/-- The order that the ordering operators go by: an integer and a float compare by size alone, so
that they can tie, and all else compares as values do. -/
def Value.compareSize : Value → Value → Ordering
  | .int64 a, .float64 b => Ord.compare (.ofInt a.toInt) b
  | .float64 a, .int64 b => Ord.compare a (.ofInt b.toInt)
  | a, b => Ord.compare a b

/-- Two nulls are equal, as they are for an index, but null has no place in an ordering. -/
def Comparison.holds (c : Comparison) (a b : Value) : Bool :=
  let ordered := !(a.isNull || b.isNull)
  match c with
  | .eq => a == b
  | .ne => a != b
  | .lt => ordered && (a.compareSize b).isLT
  | .le => ordered && (a.compareSize b).isLE
  | .gt => ordered && (a.compareSize b).isGT
  | .ge => ordered && (a.compareSize b).isGE

namespace Arithmetic

def bounded (op : Arithmetic) (n : Int) : Outcome :=
  if Int64.minValue.toInt ≤ n ∧ n ≤ Int64.maxValue.toInt then .ok (.int64 (.ofInt n))
  else .error (.overflow (.arithmetic op))

/-- Division truncates toward zero. A remainder whose quotient overflows is refused along with
it. -/
def onIntegers (op : Arithmetic) (a b : Int) : Outcome :=
  match op with
  | .add => op.bounded (a + b)
  | .sub => op.bounded (a - b)
  | .mul => op.bounded (a * b)
  | .div => if b = 0 then .error .divisionByZero else op.bounded (a.tdiv b)
  | .mod =>
      if b = 0 then .error .divisionByZero
      else do
        let _ ← op.bounded (a.tdiv b)
        op.bounded (a.tmod b)

def onFloats (op : Arithmetic) (a b : Binary64) : Outcome :=
  .ok <| .float64 <|
    match op with
    | .add => a + b
    | .sub => a - b
    | .mul => a * b
    | .div => a / b
    | .mod => a % b

/-- Null absorbs whatever stands beside it, an integer beside a float becomes a float, and addition
joins strings. Of two operands that do not fit, the left one is to blame unless it is a number. -/
def apply (op : Arithmetic) : Value → Value → Outcome
  | .null, _ | _, .null => .ok .null
  | .int64 a, .int64 b => op.onIntegers a.toInt b.toInt
  | .int64 a, .float64 b => op.onFloats (.ofInt a.toInt) b
  | .float64 a, .int64 b => op.onFloats a (.ofInt b.toInt)
  | .float64 a, .float64 b => op.onFloats a b
  | .string a, .string b =>
      if op = .add then .ok (.string (a ++ b))
      else .error (.invalidOperand (.arithmetic op) (.string a))
  | a, b => .error (.invalidOperand (.arithmetic op) (if a.isNumeric then b else a))

end Arithmetic

/-- Whether every outcome is true, up to the first that is false or an error. -/
def allTrue : List Outcome → Except Error Bool
  | [] => .ok true
  | o :: os => do if ← (← o).truth then allTrue os else return false

def anyTrue : List Outcome → Except Error Bool
  | [] => .ok false
  | o :: os => do if ← (← o).truth then return true else anyTrue os

def anyEqual (v : Value) : List Outcome → Except Error Bool
  | [] => .ok false
  | o :: os => do if (← o) == v then return true else anyEqual v os

/-- The outcome of an operation from those of its operands, which are inspected from left to
right. -/
def Operator.apply : Operator → List Outcome → Outcome
  | .and, os => .boolean <$> allTrue os
  | .or, os => .boolean <$> anyTrue os
  | .not, [o] => do return .boolean (!(← (← o).truth))
  | .isNull, [o] => do return .boolean (← o).isNull
  | .isNotNull, [o] => do return .boolean (!(← o).isNull)
  | .member, o :: os => do
      let v ← o
      .boolean <$> anyEqual v os
  | .comparison c, [a, b] => do return .boolean (c.holds (← a) (← b))
  | .arithmetic op, [a, b] => do op.apply (← a) (← b)
  | op, os => .error (.arity op os.length)

end IndexedQuery
