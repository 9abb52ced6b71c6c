namespace IndexedQuery

inductive Comparison where
  | eq
  | ne
  | lt
  | le
  | gt
  | ge
deriving DecidableEq

inductive Arithmetic where
  | add
  | sub
  | mul
  | div
  | mod
deriving DecidableEq

inductive Operator where
  | comparison (c : Comparison)
  | and
  | or
  | not
  | isNull
  | isNotNull
  | arithmetic (a : Arithmetic)
  /-- Membership of the first operand among the others. -/
  | member
deriving DecidableEq, Inhabited

def Comparison.symbol : Comparison → String
  | .eq => "=="
  | .ne => "!="
  | .lt => "<"
  | .le => "<="
  | .gt => ">"
  | .ge => ">="

def Arithmetic.symbol : Arithmetic → String
  | .add => "+"
  | .sub => "-"
  | .mul => "*"
  | .div => "/"
  | .mod => "%"

namespace Operator

/-- Every operator, comparisons first and membership last. -/
def all : List Operator :=
  [.comparison .eq, .comparison .ne, .comparison .lt, .comparison .le, .comparison .gt,
    .comparison .ge, .and, .or, .not, .isNull, .isNotNull, .arithmetic .add, .arithmetic .sub,
    .arithmetic .mul, .arithmetic .div, .arithmetic .mod, .member]

def symbol : Operator → String
  | .comparison c => c.symbol
  | .and => "&&"
  | .or => "||"
  | .not => "!"
  | .isNull => "IS NULL"
  | .isNotNull => "IS NOT NULL"
  | .arithmetic a => a.symbol
  | .member => "IN"

def minArity : Operator → Nat
  | .comparison _ | .arithmetic _ => 2
  | _ => 1

/-- The greatest number of operands; none if there may be any number. -/
def maxArity? : Operator → Option Nat
  | .comparison _ | .arithmetic _ => some 2
  | .not | .isNull | .isNotNull => some 1
  | .and | .or | .member => none

def accepts (op : Operator) (operands : Nat) : Bool :=
  op.minArity ≤ operands && op.maxArity?.all (operands ≤ ·)

end Operator

/-- What index discovery knows of the operators: which compare for exact equality, so that an
index answers them, and which hold only if all their operands hold. -/
structure Registry where
  isEquality : Operator → Bool
  isConjunction : Operator → Bool

namespace Registry

/-- The registry that knows exactly the listed operators. -/
def ofLists (equalities conjunctions : List Operator) : Registry where
  isEquality op := equalities.contains op
  isConjunction op := conjunctions.contains op

def empty : Registry :=
  ofLists [] []

def standard : Registry :=
  ofLists [.comparison .eq] [.and]

def equalities (r : Registry) : List Operator :=
  Operator.all.filter r.isEquality

def conjunctions (r : Registry) : List Operator :=
  Operator.all.filter r.isConjunction

/-- Registries are equal if they agree on every operator. -/
instance : BEq Registry where
  beq a b := a.equalities == b.equalities && a.conjunctions == b.conjunctions

end Registry

end IndexedQuery
