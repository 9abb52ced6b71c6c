import IndexedQuery.Expr
import IndexedQuery.Value.Printer

namespace IndexedQuery.Expr

/-- The text of an operation from the texts of its operands. An operation with a number of operands
that its special form does not fit is written like an infix one. -/
def operationText (op : Operator) (args : List String) : String :=
  match op, args with
  | .not, [arg] => "!" ++ arg
  | .isNull, [arg] | .isNotNull, [arg] => arg ++ " " ++ op.symbol
  | .member, first :: list => first ++ " IN (" ++ ", ".intercalate list ++ ")"
  | _, _ => "(" ++ (" " ++ op.symbol ++ " ").intercalate args ++ ")"

mutual

def text : Expr → String
  | .path p => p.text
  | .constant v => v.text
  | .param name => "?" ++ name
  | .operation op args => operationText op (texts args)

def texts : List Expr → List String
  | [] => []
  | e :: es => e.text :: texts es

end

end IndexedQuery.Expr
