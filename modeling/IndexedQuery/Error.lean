import IndexedQuery.Operator
import IndexedQuery.Value.Order
import IndexedQuery.Value.Printer

namespace IndexedQuery

/-- What is wrong with a binding slot when it is read. -/
inductive SlotFault where
  | unbound
  | expectedElement
  | expectedValue
deriving DecidableEq

def SlotFault.message : SlotFault → String
  | .unbound => "unbound"
  | .expectedElement => "expected an element"
  | .expectedValue => "expected a value"

inductive Error where
  /-- A value of another type than required; null has no type. -/
  | typeMismatch (expected : DataType) (got : Option DataType)
  | fieldOutOfRange (index length : Nat)
  | unknownSource (name : String)
  | unknownParam (name : String)
  /-- An expression other than a path was resolved to rows. -/
  | notASource (text : String)
  /-- A source stands where a value is required. -/
  | notAValue (name : String)
  | arity (op : Operator) (got : Nat)
  | invalidOperand (op : Operator) (value : Value)
  | overflow (op : Operator)
  | divisionByZero
  | binding (slot : Nat) (fault : SlotFault)
  /-- The key of an indexed source depends on bindings, and none were given. -/
  | missingBindings (text : String)
  /-- A row has no key for the index on `path`. -/
  | indexKey (path : String) (cause : Error)
  /-- The rows of a collection could not be read. -/
  | source (collection message : String)
  | invalidQuery (reason : String)
deriving BEq, Inhabited

namespace Error

/-- The type in an error message, where null is the absence of a type. -/
def typeText : Option DataType → String
  | some type => "Some(" ++ type.name ++ ")"
  | none => "None"

def message : Error → String
  | .typeMismatch expected got =>
      "Type mismatch: expected " ++ expected.name ++ ", got " ++ typeText got
  | .fieldOutOfRange index length =>
      s!"Field {index} out of range for element with {length} fields"
  | .unknownSource name => "Unknown source: " ++ name
  | .unknownParam name => "Unknown parameter: ?" ++ name
  | .notASource text => "Not a source expression: " ++ text
  | .notAValue name => "Source " ++ name ++ " does not denote a value"
  | .arity op got => s!"Operator {op.symbol} cannot take {got} argument(s)"
  | .invalidOperand op value => s!"Operator {op.symbol} cannot be applied to {value.text}"
  | .overflow op => "Integer overflow in " ++ op.symbol
  | .divisionByZero => "Division by zero"
  | .binding slot fault => s!"Binding slot {slot}: {fault.message}"
  | .missingBindings text => "Index key for " ++ text ++ " depends on bindings"
  | .indexKey path cause => "Cannot compute index key " ++ path ++ ": " ++ cause.message
  | .source collection message =>
      "Element source failed for " ++ collection ++ ": " ++ message
  | .invalidQuery reason => "Invalid query: " ++ reason

end Error

end IndexedQuery
