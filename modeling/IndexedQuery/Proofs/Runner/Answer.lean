import IndexedQuery.Proofs.Runner.Layout
import IndexedQuery.Proofs.Runner.Query

namespace IndexedQuery

variable {σ α : Type} {rows : String → List Row}

namespace Runner

def ask (r : Runner σ) (args : List Value) : Query → Run σ Answer
  | .list plan => .tuples <$> r.list plan args
  | .count plan => .number <$> r.count plan args
  | .elements condition? => .rows <$> r.elements condition? args

/-- The session after a number of questions, answered or not. -/
def after (r : Runner σ) (history : List (Query × List Value)) (s : Session σ) : Session σ :=
  history.foldl (fun s call => (r.ask call.2 call.1 s).2) s

/-- The executor as a walk over the roots. -/
def executeByWalk (r : Runner σ) (roots : List Path) (condition? : Option Expr)
    (args : List Value) (emit : List Binding → Except Error α) : Run σ (List α) := do
  if args.length ≠ r.params then
    throw (.invalidQuery s!"expected {r.params} parameter(s), got {args.length}")
  else
    let context ← r.context.specialize condition?
    let compiled? ← compile? r.context.scope.sources condition?
    let found ← walk context.resolveUnder
      (fun tuple => contribution compiled? emit (bindingsOf tuple args)) args [] (rootExprs roots)
    Run.report (.executed ((rootExprs roots).countP context.isIndexed) r.roots)
    return found

/-- A runner as it is created for its roots and parameters. -/
structure MadeFor (r : Runner σ) (roots : List Path) (params : List String) : Prop where
  sources : r.context.scope.sources = sourcesOf roots params
  unregistered : r.context.registrations = []
  roots_eq : r.roots = roots.length
  params_eq : r.params = params.length

theorem new_madeFor (source : Source σ) (roots : List Path) (params : List String)
    (registry : Registry) (config : Config) :
    (Runner.new source roots params registry config).MadeFor roots params :=
  ⟨rfl, rfl, rfl, rfl⟩

/-- The context that answers the queries with a condition. -/
def queryContext (rows : String → List Row) (r : Runner σ) (condition? : Option Expr) :
    Context σ :=
  r.context.specialized rows condition?

def kept (rows : String → List Row) (r : Runner σ) (roots : List Path)
    (condition? : Option Expr) (args : List Value) : List (List Row) :=
  (r.queryContext rows condition?).kept rows roots args

/-- Every pass over a root gives all its rows from now on, and the cache is sound. -/
abbrev Settled (rows : String → List Row) (r : Runner σ) (roots : List Path)
    (s : Session σ) : Prop :=
  s.Settled r.context.scope.source rows (roots.map Path.rootName)

namespace MadeFor

variable {r : Runner σ} {roots : List Path} {params : List String} {s : Session σ}

theorem context_eq (hr : r.MadeFor roots params) : r.context = .ofScope r.context.scope :=
  congrArg (Context.mk r.context.scope) hr.unregistered

theorem within (hr : r.MadeFor roots params) :
    r.context.scope.Within (roots.map Path.rootName) := by
  rw [← rootNames_sourcesOf roots params, ← hr.sources]
  exact r.context.scope.within_rootNames

theorem allPinned (hr : r.MadeFor roots params) (rows : String → List Row)
    (condition? : Option Expr) :
    (r.queryContext rows condition?).AllPinned rows (r.context.pinning condition?) :=
  Context.allPinned_specialized hr.unregistered condition?

theorem sources_queryContext (hr : r.MadeFor roots params) (rows : String → List Row)
    (condition? : Option Expr) :
    (r.queryContext rows condition?).scope.sources = sourcesOf roots params := by
  rw [queryContext, Context.scope_specialized, hr.sources]

theorem take_sources (hr : r.MadeFor roots params) :
    r.context.scope.sources.take r.roots = rootExprs roots := by
  rw [hr.sources, hr.roots_eq, take_sourcesOf]

theorem iterate_roots (hr : r.MadeFor roots params)
    (resolve : Expr → List Binding → Run σ Elements)
    (leaf : List Binding → Except Error (List α)) (args : List Value) :
    iterate resolve leaf 0 (rootExprs roots) (.replicate r.roots .unbound ++ args.map .value) =
      (·, boundSoFar [] roots.length args) <$>
        walk resolve (fun tuple => leaf (bindingsOf tuple args)) args [] (rootExprs roots) := by
  have hloops := iterate_eq_walk resolve leaf args [] (rootExprs roots)
  rw [length_rootExprs] at hloops
  rw [hr.roots_eq]
  exact hloops

theorem execute_eq_walk (hr : r.MadeFor roots params) (condition? : Option Expr)
    (args : List Value) (emit : List Binding → Except Error α) :
    r.execute condition? args emit = r.executeByWalk roots condition? args emit := by
  unfold execute executeByWalk
  split
  · rfl
  · funext s
    rcases hspecialize : r.context.specialize condition? s with ⟨e | c, s'⟩
    · rw [bind_of_error hspecialize, bind_of_error hspecialize]
    · have hscope : c.scope = r.context.scope := Context.scope_of_specialize (by rw [hspecialize])
      rw [bind_of_ok hspecialize, bind_of_ok hspecialize]
      simp only [hscope, hr.take_sources, hr.iterate_roots, bind_map_left]

theorem walk_settled (hr : r.MadeFor roots params) (condition? : Option Expr) (args : List Value)
    (leaf : List Row → Except Error (List α)) :
    Gives (r.Settled rows roots)
      (walk (r.queryContext rows condition?).resolveUnder leaf args [] (rootExprs roots))
      (gather leaf (r.kept rows roots condition? args)) := by
  have hpinned := hr.allPinned rows condition?
  have hscope : (r.queryContext rows condition?).scope = r.context.scope :=
    Context.scope_specialized r.context condition?
  rw [kept, ← hpinned.walked_eq_kept (hr.sources_queryContext rows condition?) args]
  apply walk_gives
  intro expr hexpr bindings s hs
  obtain ⟨root, hroot, rfl⟩ := List.mem_map.mp hexpr
  have hname : root.rootName ∈ roots.map Path.rootName := List.mem_map_of_mem hroot
  unfold Settled at hs ⊢
  rw [← hscope] at hs ⊢
  exact hpinned.resolveUnder_settled (p := root.toRoot) hs hname bindings

/-- What it takes for the executor to collect from some tuples: a context that is specialized to the
same one every time, and a walk that comes to the tuples. -/
theorem execute_gives (hr : r.MadeFor roots params) {P : Session σ → Prop}
    (hlog : ∀ s log, P s → P { s with log }) {condition? : Option Expr} {c : Context σ}
    (hspecialize : ∀ s, P s → ∃ s', r.context.specialize condition? s = (.ok c, s') ∧ P s')
    {args : List Value} {found : List (List Row)}
    (hwalk : ∀ leaf : List Row → Except Error (List α),
      Gives P (walk c.resolveUnder leaf args [] (rootExprs roots)) (gather leaf found))
    (emit : List Binding → Except Error α) :
    Gives P (r.execute condition? args emit)
      (collect (sourcesOf roots params) params.length condition? args emit found) := by
  rw [hr.execute_eq_walk, executeByWalk, collect, ← hr.params_eq, ← hr.sources]
  split
  · exact .throw _
  · have hcontext : ∀ s, P s → ∃ c' s',
        r.context.specialize condition? s = (.ok c', s') ∧ P s' ∧ c' = c := by
      intro s hs
      obtain ⟨s', hrun, hs'⟩ := hspecialize s hs
      exact ⟨c, s', hrun, hs', rfl⟩
    refine .bind_of_answers hcontext fun _ hc => ?_
    subst hc
    refine (Run.lift_gives P _).bind fun compiled? => ?_
    rw [← bind_pure (gather _ _)]
    refine (hwalk _).bind fun found => ?_
    exact fun s hs => ⟨_, rfl, hlog s _ hs⟩

theorem execute_settled (hr : r.MadeFor roots params) (condition? : Option Expr)
    (args : List Value) (emit : List Binding → Except Error α) :
    Gives (r.Settled rows roots) (r.execute condition? args emit)
      (collect (sourcesOf roots params) params.length condition? args emit
        (r.kept rows roots condition? args)) :=
  hr.execute_gives (fun _ log hs => hs.log log)
    (fun _ hs => Context.specialize_settled hs hr.within condition?)
    (hr.walk_settled condition? args) emit

/-- The answer to a query over rows that are there at every pass. It is the same in every session
that comes up, and the session stays one of those. -/
theorem ask_settled (hr : r.MadeFor roots params) (args : List Value) (q : Query) :
    Gives (r.Settled rows roots) (r.ask args q)
      (q.answerOver (sourcesOf roots params) roots.length params.length args
        (r.kept rows roots q.condition? args)) := by
  cases q with
  | list plan =>
      rw [ask, list, Query.answerOver, hr.sources, map_bind]
      refine (Run.lift_gives _ _).bind fun projection => ?_
      exact (hr.execute_settled plan.condition? args _).map _
  | count plan =>
      rw [ask, count, Query.answerOver, bind_pure_comp, Functor.map_map]
      exact (hr.execute_settled plan.condition? args _).map _
  | elements condition? =>
      rw [ask, elements, Query.answerOver, hr.roots_eq]
      split
      · exact .throw _
      · rw [bind_pure_comp, Functor.map_map]
        exact (hr.execute_settled condition? args _).map _

theorem after_settled (hr : r.MadeFor roots params) (hs : r.Settled rows roots s)
    (history : List (Query × List Value)) :
    r.Settled rows roots (r.after history s) := by
  induction history generalizing s with
  | nil => exact hs
  | cons call history ih =>
      apply ih
      obtain ⟨s', hask, hs'⟩ := hr.ask_settled call.2 call.1 s hs
      dsimp only
      rw [hask]
      exact hs'

end MadeFor

end Runner

end IndexedQuery
