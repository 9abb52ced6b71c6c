import IndexedQuery.Operator
import IndexedQuery.Path
import IndexedQuery.Value.Order

namespace IndexedQuery

inductive Expr where
  | path (p : Path)
  | constant (v : Value)
  | param (name : String)
  | operation (op : Operator) (args : List Expr)
deriving Inhabited

namespace Expr

def memberOf (x : Expr) (list : List Expr) : Expr :=
  .operation .member (x :: list)

def path? : Expr → Option Path
  | .path p => some p
  | _ => none

def isOperation : Expr → Bool
  | .operation .. => true
  | _ => false

def isRoot (name : String) : Expr → Bool
  | .path (.root r) => r == name
  | _ => false

def isParam (name : String) : Expr → Bool
  | .param p => p == name
  | _ => false

mutual

/-- Two expressions are equal if they have the same shape and equal constants. -/
protected def beq : Expr → Expr → Bool
  | .path p, .path q => p == q
  | .constant v, .constant w => v == w
  | .param x, .param y => x == y
  | .operation op args, .operation op' args' => op == op' && beqAll args args'
  | _, _ => false

def beqAll : List Expr → List Expr → Bool
  | [], [] => true
  | e :: es, f :: fs => e.beq f && beqAll es fs
  | _, _ => false

end

instance : BEq Expr where
  beq := Expr.beq

mutual

/-- The paths, constants and parameters of the expression, from left to right. -/
def leaves : Expr → List Expr
  | .operation _ args => leavesAll args
  | e => [e]

def leavesAll : List Expr → List Expr
  | [] => []
  | e :: es => e.leaves ++ leavesAll es

end

/-- The names of the sources that the expression reads, each once, in order of first occurrence. -/
def rootsRead (e : Expr) : List String :=
  (e.leaves.filterMap fun leaf => leaf.path?.map (·.rootName)).eraseDups

end Expr

end IndexedQuery
