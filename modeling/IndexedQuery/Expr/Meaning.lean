import IndexedQuery.Binding
import IndexedQuery.Expr
import IndexedQuery.Operator.Application

/-!
The meaning of expressions, read off the expression itself: names are looked up when they are met.
Compiled evaluators are measured against it.
-/

namespace IndexedQuery

/-- What the names of an expression stand for. -/
structure Environment where
  row : String → Except Error Row
  value : String → Except Error Value

/-- Each name stands for what is bound at its first position among the sources. -/
def Environment.ofBindings (sources : List Expr) (bindings : List Binding) : Environment where
  row name :=
    match sources.findIdx? (·.isRoot name) with
    | some slot => Binding.rowAt bindings slot
    | none => .error (.unknownSource name)
  value name :=
    match sources.findIdx? (·.isParam name) with
    | some slot => Binding.valueAt bindings slot
    | none => .error (.unknownParam name)

namespace Expr

mutual

/-- Operands are evaluated from left to right, and the first error is the outcome. Conjunction,
disjunction and membership stop at the operand that decides. -/
def meaning (env : Environment) : Expr → Outcome
  | .constant v => .ok v
  | .path (.root name) => .error (.notAValue name)
  | .path (.field source _ index) => do (← env.row source).field index
  | .param name => env.value name
  | .operation .and args => do return .boolean (← allHold env args)
  | .operation .or args => do return .boolean (← anyHolds env args)
  | .operation .not [arg] => do return .boolean (!(← (← arg.meaning env).truth))
  | .operation .isNull [arg] => do return .boolean (← arg.meaning env).isNull
  | .operation .isNotNull [arg] => do return .boolean (!(← arg.meaning env).isNull)
  | .operation .member (arg :: list) => do
      let v ← arg.meaning env
      return .boolean (← anyIs env v list)
  | .operation (.comparison c) [left, right] => do
      let a ← left.meaning env
      let b ← right.meaning env
      return .boolean (c.holds a b)
  | .operation (.arithmetic op) [left, right] => do
      let a ← left.meaning env
      let b ← right.meaning env
      op.apply a b
  | .operation op args => .error (.arity op args.length)

def allHold (env : Environment) : List Expr → Except Error Bool
  | [] => .ok true
  | e :: es => do
      if ← (← e.meaning env).truth then allHold env es else return false

def anyHolds (env : Environment) : List Expr → Except Error Bool
  | [] => .ok false
  | e :: es => do
      if ← (← e.meaning env).truth then return true else anyHolds env es

def anyIs (env : Environment) (v : Value) : List Expr → Except Error Bool
  | [] => .ok false
  | e :: es => do
      if (← e.meaning env) == v then return true else anyIs env v es

end

end Expr

end IndexedQuery
