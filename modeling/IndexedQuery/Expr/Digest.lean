import IndexedQuery.Expr
import IndexedQuery.Value.Digest

namespace IndexedQuery

/-- The position of the operator among all operators. -/
def Operator.digest (op : Operator) : List Datum :=
  [.tag (Operator.all.idxOf op)]

def Path.digest : Path → List Datum
  | .root name => [.tag 0, .text name]
  | .field source name index => [.tag 1, .text source, .text name, .count index]

namespace Expr

mutual

/-- An operation announces the number of its operands, so that no digest begins another. -/
def digest : Expr → List Datum
  | .path p => .tag 0 :: p.digest
  | .constant v => .tag 1 :: v.digest
  | .param name => [.tag 2, .text name]
  | .operation op args => .tag 3 :: (op.digest ++ .count args.length :: digestAll args)

def digestAll : List Expr → List Datum
  | [] => []
  | e :: es => e.digest ++ digestAll es

end

instance : Hashable Expr where
  hash e := hash e.digest

end Expr

end IndexedQuery
