import IndexedQuery.Proofs.Runner.Transparency

/-!
What the three questions to a runner have to do with each other and with the plain product of the
roots. They share their loops, so that where a list comes about, the count is its length. Where it
does not, the error is that of the first stage that fails, and there of the first tuple.
-/

namespace IndexedQuery

variable {σ α β : Type}

section Contribution

variable {g : α → β} {compiled? : Option Evaluator} {bindings : List Binding}
  {emit : List Binding → Except Error α} {emit' : List Binding → Except Error β}

theorem contribution_map (h : emit' bindings = g <$> emit bindings) :
    contribution compiled? emit' bindings = List.map g <$> contribution compiled? emit bindings := by
  rcases hsat : satisfies compiled? bindings with e | _ | _
  · rw [contribution_of_error hsat, contribution_of_error hsat]
    rfl
  · rw [contribution_of_false hsat, contribution_of_false hsat]
    rfl
  · rw [contribution_of_true hsat, contribution_of_true hsat, h]
    rcases emit bindings with e | a <;> rfl

theorem contribution_of_covered (hemit : ∀ a, emit bindings = .ok a → emit' bindings = .ok (g a))
    {found : List α} (h : contribution compiled? emit bindings = .ok found) :
    contribution compiled? emit' bindings = .ok (found.map g) := by
  rcases contribution_eq_ok_iff.mp h with ⟨hfalse, rfl⟩ | ⟨a, htrue, ha, rfl⟩
  · exact contribution_of_false hfalse
  · rw [contribution_of_true htrue, hemit a ha]
    rfl

end Contribution

theorem walked_eq_tuples (rowsAt : Expr → List Row) (args : List Value) (bound : List Row)
    (sources : List Expr) :
    walked (fun source _ => rowsAt source) args bound sources =
      (tuples (sources.map rowsAt)).map (bound ++ ·) := by
  induction sources generalizing bound with
  | nil => simp [walked, tuples]
  | cons source sources ih =>
      simp only [walked, ih, List.map_cons, tuples, List.map_flatMap, List.map_map]
      simp [Function.comp_def]

theorem nestedLoop_eq_gather (leaf : List Binding → Except Error (List α))
    (rows : List (List Row)) (args : List Value) :
    nestedLoop leaf rows args = gather (fun tuple => leaf (bindingsOf tuple args)) (tuples rows) :=
  (gather_eq_flatten _ _).symm

theorem project_nil (tuple : List Row) (args : List Value) :
    project [] (bindingsOf tuple args) = .ok (tuple.flatMap (·.values)) := by
  simp [project, bindingsOf, List.flatMap_append, List.flatMap_map, Binding.row?]

theorem project_eq_error_iff {projection : List Evaluator} {bindings : List Binding} {e : Error} :
    project projection bindings = .error e ↔
      ∃ before evaluator after values, projection = before ++ evaluator :: after ∧
        before.mapM (·.evaluate bindings) = .ok values ∧
        evaluator.evaluate bindings = .error e := by
  cases projection with
  | nil => simp [project]
  | cons first rest => exact mapM_eq_error_iff

/-- A tuple fails for the evaluation of the condition, then for its truth value, and only where the
condition is true for the first of the projected expressions that fails. -/
theorem contribution_project_eq_error_iff {condition : Evaluator} {projection : List Evaluator}
    {bindings : List Binding} {e : Error} :
    contribution (some condition) (project projection) bindings = .error e ↔
      (condition.evaluate bindings = .error e ∨
        ∃ v, condition.evaluate bindings = .ok v ∧ v.truth = .error e) ∨
      (satisfies (some condition) bindings = .ok true ∧
        ∃ before evaluator after values, projection = before ++ evaluator :: after ∧
          before.mapM (·.evaluate bindings) = .ok values ∧
          evaluator.evaluate bindings = .error e) := by
  rw [contribution_eq_error_iff, satisfies_eq_error_iff, project_eq_error_iff]

theorem compileAll_eq_error_iff {sources es : List Expr} {error : Error} :
    compileAll sources es = .error error ↔
      ∃ before e after evaluators, es = before ++ e :: after ∧
        compileAll sources before = .ok evaluators ∧ compile sources e = .error error :=
  mapM_eq_error_iff

/-- How a list over given rows fails. Each kind of failure presupposes that there is none of the
kinds before it, and a tuple fails only after all earlier ones have contributed. -/
inductive ListFailure (sources : List Expr) (params : Nat) (plan : Plan) (rows : List (List Row))
    (args : List Value) : Error → Prop where
  | projection {e : Error} (uncompiled : compileAll sources plan.projection = .error e) :
      ListFailure sources params plan rows args e
  | arguments {projection : List Evaluator}
      (projected : compileAll sources plan.projection = .ok projection)
      (mismatch : args.length ≠ params) :
      ListFailure sources params plan rows args
        (.invalidQuery s!"expected {params} parameter(s), got {args.length}")
  | condition {projection : List Evaluator} {e : Error}
      (projected : compileAll sources plan.projection = .ok projection)
      (matched : args.length = params)
      (uncompiled : compile? sources plan.condition? = .error e) :
      ListFailure sources params plan rows args e
  | tuple {projection : List Evaluator} {condition? : Option Evaluator}
      {before after : List (List Row)} {tuple : List Row} {found : List (List Value)} {e : Error}
      (projected : compileAll sources plan.projection = .ok projection)
      (matched : args.length = params)
      (compiled : compile? sources plan.condition? = .ok condition?)
      (reached : tuples rows = before ++ tuple :: after)
      (gathered : gather (fun tuple => contribution condition? (project projection)
        (bindingsOf tuple args)) before = .ok found)
      (failed : contribution condition? (project projection) (bindingsOf tuple args) = .error e) :
      ListFailure sources params plan rows args e

section Order

variable {sources : List Expr} {params : Nat} {plan : Plan} {rows : List (List Row)}
  {args : List Value}

theorem nestedLoopList_eq_bind : nestedLoopList sources params plan rows args =
    compileAll sources plan.projection >>= fun projection =>
      collect sources params plan.condition? args (project projection) (tuples rows) := by
  simp only [nestedLoopList, nestedLoop_eq_gather]
  rfl

theorem nestedLoopList_of_projected {projection : List Evaluator}
    (h : compileAll sources plan.projection = .ok projection) :
    nestedLoopList sources params plan rows args =
      collect sources params plan.condition? args (project projection) (tuples rows) := by
  rw [nestedLoopList_eq_bind, h]
  rfl

theorem nestedLoopList_eq_error_iff {e : Error} :
    nestedLoopList sources params plan rows args = .error e ↔
      ListFailure sources params plan rows args e := by
  constructor
  · intro h
    rcases hprojection : compileAll sources plan.projection with e' | projection
    · rw [nestedLoopList, hprojection] at h
      cases h
      exact .projection hprojection
    · rw [nestedLoopList_of_projected hprojection] at h
      by_cases hargs : args.length = params
      · rcases hcompile : compile? sources plan.condition? with e' | condition?
        · rw [collect_of_uncompiled hargs hcompile] at h
          cases h
          exact .condition hprojection hargs hcompile
        · rw [collect_of_compiled hargs hcompile] at h
          obtain ⟨before, tuple, after, found, hreached, hbefore, htuple⟩ :=
            gather_eq_error_iff.mp h
          exact .tuple hprojection hargs hcompile hreached hbefore htuple
      · rw [collect_of_mismatch hargs] at h
        cases h
        exact .arguments hprojection hargs
  · intro h
    cases h with
    | projection huncompiled =>
        rw [nestedLoopList, huncompiled]
        rfl
    | arguments hprojection hmismatch =>
        rw [nestedLoopList_of_projected hprojection, collect_of_mismatch hmismatch]
    | condition hprojection hargs huncompiled =>
        rw [nestedLoopList_of_projected hprojection, collect_of_uncompiled hargs huncompiled]
    | tuple hprojection hargs hcompile hreached hbefore htuple =>
        rw [nestedLoopList_of_projected hprojection, collect_of_compiled hargs hcompile]
        exact gather_eq_error_iff.mpr ⟨_, _, _, _, hreached, hbefore, htuple⟩

end Order

namespace Runner

variable {r : Runner σ} {roots : List Path} {params : List String}

section Emit

variable {g : α → β} {emit : List Binding → Except Error α} {emit' : List Binding → Except Error β}

theorem executeByWalk_map (condition? : Option Expr) (args : List Value)
    (hemit : ∀ tuple, tuple.length = roots.length →
      emit' (bindingsOf tuple args) = g <$> emit (bindingsOf tuple args)) :
    r.executeByWalk roots condition? args emit' =
      List.map g <$> r.executeByWalk roots condition? args emit := by
  unfold executeByWalk
  split
  · rfl
  · have hwalk := fun (context : Context σ) (compiled? : Option Evaluator) =>
      walk_map context.resolveUnder args [] (rootExprs roots) fun tuple htuple =>
        (contribution_map (hemit tuple (by simpa using htuple)) :
          contribution compiled? emit' (bindingsOf tuple args) = _)
    simp only [hwalk, map_bind, bind_map_left, map_pure]

theorem executeByWalk_covers (condition? : Option Expr) (args : List Value)
    (hemit : ∀ bindings a, emit bindings = .ok a → emit' bindings = .ok (g a)) :
    Covers (List.map g) (r.executeByWalk roots condition? args emit)
      (r.executeByWalk roots condition? args emit') := by
  unfold executeByWalk
  split
  · intro _ _ _ hthrow
    cases hthrow
  · refine .bind_same _ fun context => .bind_same _ fun compiled? => ?_
    refine (walk_covers context.resolveUnder args [] (rootExprs roots) fun tuple _ =>
      contribution_of_covered (hemit (bindingsOf tuple args))).bind fun found => ?_
    exact .bind_same _ fun _ => .pure (List.map g) found

end Emit

section Unindexed

variable {rows : String → List Row}

theorem MadeFor.execute_scanned (hr : r.MadeFor roots params)
    (h : r.context.scope.config.enabled = false) (condition? : Option Expr) (args : List Value)
    (emit : List Binding → Except Error α) :
    Gives (fun s => r.context.scope.source.Yields rows (roots.map Path.rootName) s.source)
      (r.execute condition? args emit)
      (collect (sourcesOf roots params) params.length condition? args emit
        (product rows roots)) := by
  refine hr.execute_gives (c := .ofScope r.context.scope) (fun _ _ hs => hs) ?_ ?_ emit
  · intro s hs
    refine ⟨s, ?_, hs⟩
    cases condition? with
    | none =>
        rw [← hr.context_eq]
        rfl
    | some condition => exact Context.specialize_of_unsearched (by rw [h]; rfl)
  · intro leaf
    have hwalked : walked (fun source _ => source.rowsIn rows) args [] (rootExprs roots) =
        product rows roots := by
      rw [walked_eq_tuples, product_eq_tuples]
      exact List.map_id _
    rw [← hwalked]
    apply walk_gives
    intro expr hexpr bindings s hs
    obtain ⟨root, hroot, rfl⟩ := List.mem_map.mp hexpr
    have hname : root.rootName ∈ roots.map Path.rootName := List.mem_map_of_mem hroot
    have hpass : (r.context.scope.source.pass s.source root.toRoot.rootName).1 =
        .ok ((rows root.rootName).map .ok) := hs.complete hname
    rw [Context.resolveUnder_of_unregistered rfl, Context.ofScope, Scope.scan_path, hpass]
    exact ⟨_, _, rfl, hs.pass hname, rfl⟩

theorem MadeFor.list_scanned (hr : r.MadeFor roots params)
    (h : r.context.scope.config.enabled = false) (plan : Plan) (args : List Value) :
    Gives (fun s => r.context.scope.source.Yields rows (roots.map Path.rootName) s.source)
      (r.list plan args)
      (nestedLoopList (sourcesOf roots params) params.length plan
        (roots.map fun root => rows root.rootName) args) := by
  rw [nestedLoopList_eq_bind, ← product, list, hr.sources]
  refine (Run.lift_gives _ _).bind fun projection => ?_
  exact hr.execute_scanned h plan.condition? args (project projection)

end Unindexed

theorem MadeFor.list_covers_count (hr : r.MadeFor roots params) (plan : Plan)
    (args : List Value) : Covers List.length (r.list plan args) (r.count plan args) := by
  intro s s' found hlist
  rcases hprojection : compileAll r.context.scope.sources plan.projection with e | projection
  · rw [list, hprojection] at hlist
    cases hlist
  · rw [list, hprojection] at hlist
    have hexecute : r.execute plan.condition? args (project projection) s = (.ok found, s') := hlist
    rw [hr.execute_eq_walk] at hexecute
    have hcovers : Covers (List.map fun _ => ())
        (r.executeByWalk roots plan.condition? args (project projection))
        (r.executeByWalk roots plan.condition? args fun _ => .ok ()) :=
      executeByWalk_covers plan.condition? args fun _ _ _ => rfl
    have hmarks := hcovers s s' found hexecute
    rw [count, hr.execute_eq_walk, bind_of_ok hmarks, List.length_map]
    rfl

def firstRow (bindings : List Binding) : Row :=
  (bindings.head?.bind (·.row?)).getD default

theorem executeByWalk_single {root : Path} {emit : List Binding → Except Error α} (g : Row → α)
    (condition? : Option Expr) {args : List Value}
    (hemit : ∀ row, emit (bindingsOf [row] args) = .ok (g row)) :
    r.executeByWalk [root] condition? args emit =
      List.map g <$>
        r.executeByWalk [root] condition? args fun bindings => .ok (firstRow bindings) := by
  apply executeByWalk_map
  intro tuple htuple
  obtain ⟨row, rfl⟩ := List.length_eq_one_iff.mp htuple
  exact hemit row

theorem MadeFor.list_eq_map_elements {root : Path} (hr : r.MadeFor [root] params)
    (condition? : Option Expr) (args : List Value) :
    r.list ⟨condition?, []⟩ args = List.map Row.values <$> r.elements condition? args := by
  have hlist : r.list ⟨condition?, []⟩ args = r.execute condition? args (project []) := rfl
  have hvalues : ∀ row, project [] (bindingsOf [row] args) = .ok row.values := by
    intro row
    rw [project_nil, List.flatMap_singleton]
  rw [hlist, elements, if_neg (by simp [hr.roots_eq]), hr.execute_eq_walk, hr.execute_eq_walk,
    executeByWalk_single Row.values condition? hvalues,
    executeByWalk_single some condition? fun _ => rfl]
  simp [List.reduceOption, List.filterMap_map]

section Reference

variable (source : Source σ) (roots : List Path) (params : List String) (registry : Registry)

/-- Without indexes a list is that of the nested loops over the product, whatever the session has
been through. With or without, the count is the length of the list, and for one root the list
without a projection has the fields of the elements. -/
theorem list_eq_nestedLoopList :
    (∀ rows (s : Session σ) capacity plan args,
      source.Yields rows (roots.map Path.rootName) s.source →
        ((Runner.new source roots params registry ⟨false, capacity⟩).list plan args s).1 =
          nestedLoopList (sourcesOf roots params) params.length plan
            (roots.map fun root => rows root.rootName) args) ∧
    (∀ tuple args, project [] (bindingsOf tuple args) = .ok (tuple.flatMap (·.values))) ∧
    ∀ config,
      let r := Runner.new source roots params registry config
      (∀ plan args s s' found, r.list plan args s = (.ok found, s') →
        r.count plan args s = (.ok found.length, s')) ∧
      ∀ condition? args, roots.length = 1 →
        r.list ⟨condition?, []⟩ args = List.map Row.values <$> r.elements condition? args := by
  refine ⟨?_, project_nil, ?_⟩
  · intro rows s capacity plan args yields
    have hr := new_madeFor source roots params registry ⟨false, capacity⟩
    obtain ⟨s', hlist, -⟩ := hr.list_scanned rfl plan args s yields
    rw [hlist]
  · intro config r
    have hr : r.MadeFor roots params := new_madeFor source roots params registry config
    refine ⟨fun plan args s s' found => hr.list_covers_count plan args s s' found, ?_⟩
    intro condition? args hone
    obtain ⟨root, rfl⟩ := List.length_eq_one_iff.mp hone
    exact hr.list_eq_map_elements condition? args

end Reference

def ownersWithPets : Plan :=
  ⟨some (.operation (.comparison .eq)
    [.path (.field "pet" "owner" 0), .path (.field "owner" "id" 0)]), []⟩

def petsOfSecond : Plan :=
  ⟨some (.operation (.comparison .eq)
    [.path (.field "pet" "owner" 0), .constant (.int64 2)]), []⟩

theorem list_ownersWithPets :
    let roots : List Path := [.root "owner", .root "pet"]
    let pets := Runner.new petShop.source [.root "pet"] [] .standard ⟨true, 16⟩
    ((Runner.new petShop.source roots [] .standard ⟨false, 16⟩).list ownersWithPets []
        (.start ())).1 =
      .ok [[.int64 1, .int64 1], [.int64 2, .int64 2], [.int64 2, .int64 2]] ∧
    (pets.count petsOfSecond [] (.start ())).1 = .ok 2 ∧
    pets.list petsOfSecond [] = List.map Row.values <$> pets.elements petsOfSecond.condition? [] := by
  intro roots pets
  have yields : petShop.source.Yields petShop.rowsOf (roots.map Path.rootName) () :=
    petShop.source_yields (by decide)
  have hscanned := (list_eq_nestedLoopList petShop.source roots [] .standard).1 petShop.rowsOf
    (.start ()) 16 ownersWithPets [] yields
  have hpets := (list_eq_nestedLoopList petShop.source [.root "pet"] [] .standard).2.2 ⟨true, 16⟩
  have hlist : pets.list petsOfSecond [] (.start ()) =
      (.ok [[.int64 2], [.int64 2]], (pets.list petsOfSecond [] (.start ())).2) :=
    Prod.ext rfl rfl
  have hcount := hpets.1 petsOfSecond [] _ _ _ hlist
  exact ⟨hscanned, congrArg Prod.fst hcount, hpets.2 petsOfSecond.condition? [] rfl⟩

end Runner

end IndexedQuery
