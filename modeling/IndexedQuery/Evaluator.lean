import IndexedQuery.Binding
import IndexedQuery.Expr
import IndexedQuery.Operator.Application

/-!
Evaluators: expressions whose sources and parameters have been resolved to binding slots.
-/

namespace IndexedQuery

inductive Term where
  | constant (v : Value)
  | field (slot index : Nat)
  | param (slot : Nat)
  | operation (op : Operator) (args : List Term)
deriving Inhabited

/-- The slot of the source `name`: its first position among the sources. -/
def rootSlot? (sources : List Expr) (name : String) : Option Nat :=
  sources.findIdx? (·.isRoot name)

def paramSlot? (sources : List Expr) (name : String) : Option Nat :=
  sources.findIdx? (·.isParam name)

namespace Term

mutual

/-- Resolves the names in an expression. The number of operands of an operation is checked before
the operands themselves. -/
def ofExpr (sources : List Expr) : Expr → Except Error Term
  | .constant v => .ok (.constant v)
  | .path (.root name) => .error (.notAValue name)
  | .path (.field source _ index) =>
      match rootSlot? sources source with
      | some slot => .ok (.field slot index)
      | none => .error (.unknownSource source)
  | .param name =>
      match paramSlot? sources name with
      | some slot => .ok (.param slot)
      | none => .error (.unknownParam name)
  | .operation op args =>
      if op.accepts args.length then do return .operation op (← ofExprs sources args)
      else .error (.arity op args.length)

def ofExprs (sources : List Expr) : List Expr → Except Error (List Term)
  | [] => .ok []
  | e :: es => do return (← ofExpr sources e) :: (← ofExprs sources es)

end

mutual

def slots : Term → List Nat
  | .constant _ => []
  | .field slot _ | .param slot => [slot]
  | .operation _ args => slotsAll args

def slotsAll : List Term → List Nat
  | [] => []
  | t :: ts => t.slots ++ slotsAll ts

end

mutual

def eval (bindings : List Binding) : Term → Outcome
  | .constant v => .ok v
  | .field slot index => do (← Binding.rowAt bindings slot).field index
  | .param slot => Binding.valueAt bindings slot
  | .operation op args => op.apply (evalAll bindings args)

def evalAll (bindings : List Binding) : List Term → List Outcome
  | [] => []
  | t :: ts => t.eval bindings :: evalAll bindings ts

end

end Term

/-- A compiled expression. One that reads no slot is static: its value is the same under all
bindings. -/
inductive Evaluator where
  | static (term : Term)
  | bound (term : Term) (dependencies : List Nat)
deriving Inhabited

namespace Evaluator

def isStatic : Evaluator → Bool
  | .static _ => true
  | .bound .. => false

/-- The slots that the evaluator reads, in ascending order. -/
def dependencies : Evaluator → List Nat
  | .static _ => []
  | .bound _ dependencies => dependencies

def static? : Evaluator → Option Outcome
  | .static term => some (term.eval [])
  | .bound .. => none

def evaluate (bindings : List Binding) : Evaluator → Outcome
  | .static term => term.eval []
  | .bound term _ => term.eval bindings

end Evaluator

/-- Compiles an expression against the sources and parameters in scope, whose positions are the
slots. -/
def compile (sources : List Expr) (e : Expr) : Except Error Evaluator := do
  let term ← Term.ofExpr sources e
  if term.slots.isEmpty then return .static term
  return .bound term ((List.range sources.length).filter term.slots.contains)

def compile? (sources : List Expr) : Option Expr → Except Error (Option Evaluator)
  | none => .ok none
  | some e => some <$> compile sources e

/-- Compiles expressions from left to right, up to the first that fails. -/
def compileAll (sources : List Expr) (es : List Expr) : Except Error (List Evaluator) :=
  es.mapM (compile sources)

end IndexedQuery
