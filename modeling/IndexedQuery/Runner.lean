import IndexedQuery.Context.Discovery

/-!
Runners answer queries over a fixed list of roots by nested loops, one loop for each root. An index
only narrows a loop: the condition is still evaluated on every tuple of rows.
-/

namespace IndexedQuery

/-- What to filter by and what to return. An empty projection stands for all fields of all rows. -/
structure Plan where
  condition? : Option Expr
  projection : List Expr

structure Runner (σ : Type) where
  /-- The context that is specialized for each query. -/
  context : Context σ
  roots : Nat
  params : Nat

variable {σ α : Type}

/-- Whether a tuple satisfies the condition, if there is one. -/
def satisfies (condition? : Option Evaluator) (bindings : List Binding) : Except Error Bool :=
  match condition? with
  | none => .ok true
  | some condition => do (← condition.evaluate bindings).truth

def project (projection : List Evaluator) (bindings : List Binding) :
    Except Error (List Value) :=
  if projection.isEmpty then
    .ok (bindings.flatMap fun b => (b.row?.map (·.values)).getD [])
  else
    projection.mapM (·.evaluate bindings)

/-- What a tuple contributes: what `emit` makes of it, or nothing if it fails the condition. -/
def contribution (condition? : Option Evaluator) (emit : List Binding → Except Error α)
    (bindings : List Binding) : Except Error (List α) := do
  if ← satisfies condition? bindings then return [← emit bindings] else return []

/-- Loops that share one list of bindings. -/
abbrev Loop (σ α : Type) :=
  StateT (List Binding) (ExceptT Error (StateM (Session σ))) α

/-- The loops over `sources`, which belong to the slots from `slot` on. Each row in turn is put
into its slot while the inner loops run, and at the end the slot is freed. The innermost step reads
off what the bindings contribute. -/
def iterate (resolve : Expr → List Binding → Run σ Elements)
    (leaf : List Binding → Except Error (List α)) (slot : Nat) : List Expr → Loop σ (List α)
  | [] => do leaf (← get)
  | source :: sources => do
      let elements ← resolve source (← get)
      let found ← elements.toPass.mapM fun (item : Except Error Row) => do
        let row ← item
        modify (·.set slot (.element row))
        iterate resolve leaf (slot + 1) sources
      modify (·.set slot .unbound)
      return found.flatten

namespace Runner

def new (source : Source σ) (roots : List Path) (params : List String) (registry : Registry)
    (config : Config) : Runner σ where
  context := .ofScope
    { source, registry, config
      sources := roots.map (fun root => .path root.toRoot) ++ params.map .param }
  roots := roots.length
  params := params.length

def execute (r : Runner σ) (condition? : Option Expr) (args : List Value)
    (emit : List Binding → Except Error α) : Run σ (List α) := do
  if args.length ≠ r.params then
    throw (.invalidQuery s!"expected {r.params} parameter(s), got {args.length}")
  else
    let context ← r.context.specialize condition?
    let sources := context.scope.sources
    let compiled? ← compile? sources condition?
    let roots := sources.take r.roots
    let bindings := .replicate r.roots .unbound ++ args.map .value
    let (found, _) ← iterate context.resolveUnder (contribution compiled? emit) 0 roots bindings
    Run.report (.executed (roots.countP context.isIndexed) r.roots)
    return found

/-- The projected tuples that satisfy the condition, in the order of the loops. -/
def list (r : Runner σ) (plan : Plan) (args : List Value) : Run σ (List (List Value)) := do
  let projection ← compileAll r.context.scope.sources plan.projection
  r.execute plan.condition? args (project projection)

def count (r : Runner σ) (plan : Plan) (args : List Value) : Run σ Nat := do
  return (← r.execute plan.condition? args fun _ => .ok ()).length

/-- The rows that satisfy the condition, for a runner with one root. -/
def elements (r : Runner σ) (condition? : Option Expr) (args : List Value) :
    Run σ (List Row) := do
  if r.roots ≠ 1 then
    throw (.invalidQuery s!"elements needs exactly one root, runner has {r.roots}")
  else
    let found ← r.execute condition? args fun bindings => .ok (bindings.head?.bind (·.row?))
    return found.reduceOption

end Runner

end IndexedQuery
