import IndexedQuery.Binary64

namespace IndexedQuery

/-- The type of a value that is not null. -/
inductive DataType where
  | boolean
  | int64
  | float64
  | string
  | dateTime
deriving DecidableEq

namespace DataType

def name : DataType → String
  | .boolean => "Boolean"
  | .int64 => "Int64"
  | .float64 => "Float64"
  | .string => "String"
  | .dateTime => "DateTime"

/-- The types that arithmetic is defined on. -/
def isNumeric : DataType → Bool
  | .int64 | .float64 => true
  | _ => false

end DataType

inductive Value where
  | null
  | boolean (b : Bool)
  | int64 (n : Int64)
  | float64 (x : Binary64)
  | string (s : String)
  /-- A point in time, in milliseconds from the start of 1970. -/
  | dateTime (ms : Int64)
deriving Inhabited

namespace Value

/-- The type of a value; null has none. -/
def dataType? : Value → Option DataType
  | .null => none
  | .boolean _ => some .boolean
  | .int64 _ => some .int64
  | .float64 _ => some .float64
  | .string _ => some .string
  | .dateTime _ => some .dateTime

def isNull : Value → Bool
  | .null => true
  | _ => false

def isNumeric (v : Value) : Bool :=
  v.dataType?.any (·.isNumeric)

def boolean? : Value → Option Bool
  | .boolean b => some b
  | _ => none

def int64? : Value → Option Int64
  | .int64 n => some n
  | _ => none

def float64? : Value → Option Binary64
  | .float64 x => some x
  | _ => none

def string? : Value → Option String
  | .string s => some s
  | _ => none

def dateTime? : Value → Option Int64
  | .dateTime ms => some ms
  | _ => none

end Value

end IndexedQuery
