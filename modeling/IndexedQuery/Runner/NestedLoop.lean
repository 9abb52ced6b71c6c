import IndexedQuery.Runner

/-!
The answer to a query as its definition has it: go through the tuples of the cartesian product in
lexicographic order and take what each contributes. No context, cache or source takes part.
-/

namespace IndexedQuery

/-- All choices of one row from each list, the first list varying slowest. -/
def tuples : List (List Row) → List (List Row)
  | [] => [[]]
  | rows :: rest => rows.flatMap fun row => (tuples rest).map (row :: ·)

/-- What the tuples of a product contribute, up to the first error. -/
def nestedLoop {α : Type} (leaf : List Binding → Except Error (List α)) (rows : List (List Row))
    (args : List Value) : Except Error (List α) :=
  List.flatten <$> (tuples rows).mapM fun tuple => leaf (tuple.map .element ++ args.map .value)

/-- The list of a query over collections that are given outright, with `params` parameters in
scope. -/
def nestedLoopList (sources : List Expr) (params : Nat) (plan : Plan) (rows : List (List Row))
    (args : List Value) : Except Error (List (List Value)) := do
  let projection ← compileAll sources plan.projection
  if args.length ≠ params then
    throw (.invalidQuery s!"expected {params} parameter(s), got {args.length}")
  else
    let condition? ← compile? sources plan.condition?
    nestedLoop (contribution condition? (project projection)) rows args

end IndexedQuery
