import IndexedQuery.Proofs.Context.Reordering
import IndexedQuery.Proofs.Runner.Recovery
import IndexedQuery.Proofs.Runner.Reference

namespace IndexedQuery

variable {σ α : Type} {roots : List Path} {params params' : List String}
  {args args' : List Value}

/-- Distinct parameters with their arguments, and the same pairs in another order. -/
structure Reorders (params params' : List String) (args args' : List Value) : Prop where
  nodup : params.Nodup
  length_eq : args.length = params.length
  length_eq' : args'.length = params'.length
  perm : (params.zip args).Perm (params'.zip args')

namespace Reorders

variable (h : Reorders params params' args args')

include h

theorem params_perm : params.Perm params' := by
  have hnames := h.perm.map Prod.fst
  rwa [List.map_fst_zip (Nat.le_of_eq h.length_eq.symm),
    List.map_fst_zip (Nat.le_of_eq h.length_eq'.symm)] at hnames

theorem symm : Reorders params' params args' args :=
  ⟨h.params_perm.nodup_iff.mp h.nodup, h.length_eq', h.length_eq, h.perm.symm⟩

end Reorders

theorem findIdx?_eq_none_iff_not_mem {name : String} :
    params.findIdx? (· == name) = none ↔ name ∉ params := by
  rw [List.findIdx?_eq_none_iff]
  constructor
  · intro h hmem
    simpa using h name hmem
  · intro h other hother
    rw [beq_eq_false_iff_ne]
    rintro rfl
    exact h hother

theorem Reorders.sameNames (h : Reorders params params' args args') (roots : List Path) :
    SameNames (sourcesOf roots params) (sourcesOf roots params') where
  root_eq name := by rw [rootSlot?_sourcesOf, rootSlot?_sourcesOf]
  param_iff name := by
    rw [paramSlot?_sourcesOf, paramSlot?_sourcesOf, Option.isSome_map, Option.isSome_map,
      Bool.eq_iff_iff, ← Option.ne_none_iff_isSome, ← Option.ne_none_iff_isSome, ne_eq, ne_eq,
      findIdx?_eq_none_iff_not_mem, findIdx?_eq_none_iff_not_mem, h.params_perm.mem_iff]

section Environments

variable {bound : List Row} {free : Nat} {name : String}

theorem row_boundSoFar (hroots : bound.length + free = roots.length) (params params' : List String)
    (args args' : List Value) (name : String) :
    (Environment.ofBindings (sourcesOf roots params) (boundSoFar bound free args)).row name =
      (Environment.ofBindings (sourcesOf roots params')
        (boundSoFar bound free args')).row name := by
  have hslot := rootSlot?_sourcesOf roots params name
  have hslot' := rootSlot?_sourcesOf roots params' name
  rw [rootSlot?] at hslot hslot'
  simp only [Environment.ofBindings, hslot, hslot']
  split
  · rename_i slot hfirst
    apply Binding.rowAt_congr
    apply getD_boundSoFar_congr
    rw [List.findIdx?_eq_some_iff_getElem] at hfirst
    obtain ⟨hlt, -⟩ := hfirst
    rwa [hroots]
  · rfl

theorem value_boundSoFar (hroots : bound.length + free = roots.length) (hnodup : params.Nodup)
    {v : Value} (hmem : (name, v) ∈ params.zip args) :
    (Environment.ofBindings (sourcesOf roots params) (boundSoFar bound free args)).value name =
      .ok v := by
  obtain ⟨i, hi⟩ := List.mem_iff_getElem?.mp hmem
  obtain ⟨hparam, harg⟩ := List.getElem?_zip_eq_some.mp hi
  have hfirst : params.findIdx? (· == name) = some i := by
    obtain ⟨hlt, rfl⟩ := List.getElem?_eq_some_iff.mp hparam
    rw [List.findIdx?_eq_some_iff_getElem]
    refine ⟨hlt, beq_self_eq_true _, fun j hj hsame => ?_⟩
    have hji := (hnodup.getElem_inj_iff (i := j)).mp (beq_iff_eq.mp hsame)
    omega
  have hslot := paramSlot?_sourcesOf roots params name
  rw [paramSlot?, hfirst, Option.map_some] at hslot
  simp only [Environment.ofBindings, hslot]
  rw [Binding.valueAt, getD_boundSoFar_of_param hroots harg]

theorem value_of_unknown (roots : List Path) (bindings : List Binding) (hmem : name ∉ params) :
    (Environment.ofBindings (sourcesOf roots params) bindings).value name =
      .error (.unknownParam name) := by
  have hslot := paramSlot?_sourcesOf roots params name
  rw [paramSlot?, findIdx?_eq_none_iff_not_mem.mpr hmem, Option.map_none] at hslot
  simp only [Environment.ofBindings, hslot]

theorem Reorders.ofBindings_eq (h : Reorders params params' args args')
    (hroots : bound.length + free = roots.length) :
    Environment.ofBindings (sourcesOf roots params) (boundSoFar bound free args) =
      Environment.ofBindings (sourcesOf roots params') (boundSoFar bound free args') := by
  have hrow := funext (row_boundSoFar hroots params params' args args')
  have hvalue : ∀ name,
      (Environment.ofBindings (sourcesOf roots params) (boundSoFar bound free args)).value name =
        (Environment.ofBindings (sourcesOf roots params')
          (boundSoFar bound free args')).value name := by
    intro name
    -- A name is a parameter of both runners or of neither.
    by_cases hmem : name ∈ params
    · rw [← List.map_fst_zip (Nat.le_of_eq h.length_eq.symm)] at hmem
      obtain ⟨⟨_, v⟩, hpair, rfl⟩ := List.mem_map.mp hmem
      rw [value_boundSoFar hroots h.nodup hpair,
        value_boundSoFar hroots h.symm.nodup (h.perm.mem_iff.mp hpair)]
    · have hmem' : name ∉ params' := fun hin => hmem (h.params_perm.mem_iff.mpr hin)
      rw [value_of_unknown roots _ hmem, value_of_unknown roots _ hmem']
  exact congrArg₂ Environment.mk hrow (funext hvalue)

theorem Reorders.evaluate_eq (h : Reorders params params' args args')
    (hroots : bound.length + free = roots.length) {evaluator evaluator' : Evaluator}
    (hkey : SameKey (sourcesOf roots params) (sourcesOf roots params') evaluator evaluator') :
    evaluator.evaluate (boundSoFar bound free args) =
      evaluator'.evaluate (boundSoFar bound free args') := by
  obtain ⟨e, he, he'⟩ := hkey
  obtain ⟨t, hterm, heval⟩ := evaluate_of_compile he
  obtain ⟨t', hterm', heval'⟩ := evaluate_of_compile he'
  rw [heval, heval', Term.eval_ofExpr e hterm, Term.eval_ofExpr e hterm', h.ofBindings_eq hroots]

end Environments

theorem Reorders.evaluate_eq_of_tuple (h : Reorders params params' args args') {tuple : List Row}
    (htuple : tuple.length = roots.length) {evaluator evaluator' : Evaluator}
    (hkey : SameKey (sourcesOf roots params) (sourcesOf roots params') evaluator evaluator') :
    evaluator.evaluate (bindingsOf tuple args) = evaluator'.evaluate (bindingsOf tuple args') := by
  rw [bindingsOf_eq_boundSoFar, bindingsOf_eq_boundSoFar]
  exact h.evaluate_eq htuple hkey

theorem Reorders.project_eq (h : Reorders params params' args args') {tuple : List Row}
    (htuple : tuple.length = roots.length) {projection projection' : List Evaluator}
    (hkeys : List.Forall₂ (SameKey (sourcesOf roots params) (sourcesOf roots params')) projection
      projection') :
    project projection (bindingsOf tuple args) = project projection' (bindingsOf tuple args') := by
  have hvalues : projection.mapM (·.evaluate (bindingsOf tuple args)) =
      projection'.mapM (·.evaluate (bindingsOf tuple args')) := by
    induction hkeys with
    | nil => rfl
    | cons hkey _ ih => rw [List.mapM_cons, List.mapM_cons, h.evaluate_eq_of_tuple htuple hkey, ih]
  cases hkeys with
  | nil => rw [project_nil, project_nil]
  | cons hkey hkeys => exact hvalues

theorem head_bindingsOf {tuple : List Row} (htuple : tuple.length = 1)
    (args args' : List Value) : (bindingsOf tuple args).head? = (bindingsOf tuple args').head? := by
  obtain ⟨row, rfl⟩ := List.length_eq_one_iff.mp htuple
  rfl

namespace Runner

/-- Runners over the same roots, with the parameters in another order. -/
structure Reordered (roots : List Path) (params params' : List String) (r r' : Runner σ) :
    Prop where
  left : r.MadeFor roots params
  right : r'.MadeFor roots params'
  scopes : r.context.scope.Reordered r'.context.scope

namespace Reordered

variable {r r' : Runner σ} (hr : r.Reordered roots params params' r')
  (h : Reorders params params' args args')

include hr h

theorem resolveUnder_eq {c c' : Context σ}
    (hc : c.Reordered r.context.scope r'.context.scope c') {bound : List Row} {free : Nat}
    (hroots : bound.length + free = roots.length) (e : Expr) :
    c.resolveUnder e (boundSoFar bound free args) =
      c'.resolveUnder e (boundSoFar bound free args') := by
  have hsource : c.scope.source = c'.scope.source := by
    rw [hc.scope_eq, hc.scope_eq', hr.scopes.source_eq]
  rcases hc.registration?_cases e with ⟨hnone, hnone'⟩ | ⟨key, key', hsome, hsome', hpath, hkey⟩
  · rw [Context.resolveUnder_of_unregistered hnone, Context.resolveUnder_of_unregistered hnone',
      Scope.scan_congr hsource]
  · rw [hr.left.sources, hr.right.sources] at hkey
    rw [Context.resolveUnder_of_registered hsome, Context.resolveUnder_of_registered hsome',
      h.evaluate_eq hroots hkey, Context.lookup_congr hsource e hpath]

theorem satisfies_alike (condition? : Option Expr) :
    Alike (fun compiled? compiled'? => ∀ tuple : List Row, tuple.length = roots.length →
      satisfies compiled? (bindingsOf tuple args) = satisfies compiled'? (bindingsOf tuple args'))
      (compile? r.context.scope.sources condition?)
      (compile? r'.context.scope.sources condition?) := by
  cases condition? with
  | none => exact .ok fun _ _ => rfl
  | some condition =>
      refine (hr.scopes.names.compile_alike condition).map fun evaluator evaluator' hkey => ?_
      intro tuple htuple
      rw [hr.left.sources, hr.right.sources] at hkey
      rw [satisfies, satisfies, h.evaluate_eq_of_tuple htuple hkey]

theorem walk_eq {c c' : Context σ} (hc : c.Reordered r.context.scope r'.context.scope c')
    {leaf leaf' : List Row → Except Error (List α)}
    (hleaf : ∀ tuple, tuple.length = roots.length → leaf tuple = leaf' tuple) :
    walk c.resolveUnder leaf args [] (rootExprs roots) =
      walk c'.resolveUnder leaf' args' [] (rootExprs roots) := by
  refine walk_rootExprs_congr args args' (fun i root hroot bound hbound => ?_) hleaf
  have hlt : i < roots.length := (List.getElem?_eq_some_iff.mp hroot).1
  exact hr.resolveUnder_eq h hc (by omega) (.path root.toRoot)

theorem execute_eq (condition? : Option Expr) {emit emit' : List Binding → Except Error α}
    (hemit : ∀ tuple : List Row, tuple.length = roots.length →
      emit (bindingsOf tuple args) = emit' (bindingsOf tuple args')) :
    r.execute condition? args emit = r'.execute condition? args' emit' := by
  rw [hr.left.execute_eq_walk, hr.right.execute_eq_walk, executeByWalk, executeByWalk,
    if_neg (not_not_intro (h.length_eq.trans hr.left.params_eq.symm)),
    if_neg (not_not_intro (h.length_eq'.trans hr.right.params_eq.symm))]
  have hcontext : r.context.Reordered r.context.scope r'.context.scope r'.context := by
    rw [hr.left.context_eq, hr.right.context_eq]
    exact .ofScope _ _
  apply Abreast.eq
  refine (hcontext.specialize hr.scopes condition?).bind fun c c' hc => ?_
  have hcompile := hr.satisfies_alike h condition?
  refine (Run.lift_abreast hcompile).bind fun compiled? compiled'? hsatisfies => ?_
  have hleaf : ∀ tuple : List Row, tuple.length = roots.length →
      contribution compiled? emit (bindingsOf tuple args) =
        contribution compiled'? emit' (bindingsOf tuple args') := by
    intro tuple htuple
    rw [contribution, contribution, hsatisfies tuple htuple, hemit tuple htuple]
  have hindexed : c.isIndexed = c'.isIndexed := funext hc.isIndexed_eq
  rw [hr.walk_eq h hc hleaf, hindexed, hr.left.roots_eq, hr.right.roots_eq]
  exact .refl _

theorem ask_eq (q : Query) : r.ask args q = r'.ask args' q := by
  cases q with
  | list plan =>
      rw [ask, ask, list, list]
      refine congrArg _ (Abreast.eq ?_)
      have hcompile : Alike (List.Forall₂ (SameKey (sourcesOf roots params)
          (sourcesOf roots params'))) (compileAll r.context.scope.sources plan.projection)
          (compileAll r'.context.scope.sources plan.projection) := by
        rw [← hr.left.sources, ← hr.right.sources]
        exact .mapM fun e _ => hr.scopes.names.compile_alike e
      refine (Run.lift_abreast hcompile).bind fun projection projection' hkeys => ?_
      rw [hr.execute_eq h plan.condition? fun tuple htuple => h.project_eq htuple hkeys]
      exact .refl _
  | count plan =>
      have hmarks : r.execute plan.condition? args (fun _ => .ok ()) =
          r'.execute plan.condition? args' fun _ => .ok () :=
        hr.execute_eq h plan.condition? fun _ _ => rfl
      rw [ask, ask, count, count, hmarks]
  | elements condition? =>
      rw [ask, ask, elements, elements, hr.left.roots_eq, hr.right.roots_eq]
      by_cases hone : roots.length = 1
      · rw [if_neg (not_not_intro hone), if_neg (not_not_intro hone),
          hr.execute_eq h condition? fun tuple htuple => ?_]
        -- The arguments come after the row of the only root.
        rw [head_bindingsOf (htuple.trans hone) args args']
      · rw [if_pos hone, if_pos hone]

end Reordered

theorem new_reordered (h : Reorders params params' args args') (source : Source σ)
    (roots : List Path) (registry : Registry) (config : Config) :
    Reordered roots params params' (.new source roots params registry config)
      (.new source roots params' registry config) :=
  ⟨new_madeFor .., new_madeFor .., rfl, rfl, rfl, h.sameNames roots⟩

/-- Where the parameters are reordered and the arguments along with them, every query does the
same: it gives the same rows or the same error, and leaves the same session, with the same cache. -/
theorem ask_reordered (h : Reorders params params' args args') (source : Source σ)
    (roots : List Path) (registry : Registry) (config : Config) (q : Query) :
    (Runner.new source roots params registry config).ask args q =
      (Runner.new source roots params' registry config).ask args' q :=
  (new_reordered h source roots registry config).ask_eq h q

/-- The names of the cats with a value and a name that are both given. -/
def catsByValueAndName : Query :=
  .list ⟨some (.operation .and
      [.operation (.comparison .eq) [.path (.field "cat" "val" 1), .param "x"],
        .operation (.comparison .eq) [.path (.field "cat" "name" 0), .param "y"]]),
    [.param "x", .path (.field "cat" "name" 0)]⟩

open ContextTree in
theorem ask_catsByValueAndName :
    let ask := fun params args =>
      (Runner.new cats.source [.root "cat"] params .standard .standard).ask args catsByValueAndName
        (.start ())
    let xy := ask ["x", "y"] [.int64 1, .string "b"]
    let yx := ask ["y", "x"] [.string "b", .int64 1]
    Reorders ["x", "y"] ["y", "x"] [.int64 1, .string "b"] [.string "b", .int64 1] ∧ xy = yx ∧
      yx.1 = .ok (.tuples [[.int64 1, .string "b"]]) ∧
      yx.2.cache.paths = [.field "cat" "val" 1] := by
  intro ask xy yx
  have h : Reorders ["x", "y"] ["y", "x"] [.int64 1, .string "b"] [.string "b", .int64 1] :=
    ⟨by decide, rfl, rfl, .swap _ _ []⟩
  have hsame := ask_reordered h cats.source [.root "cat"] .standard .standard catsByValueAndName
  exact ⟨h, congrFun hsame _, rfl, rfl⟩

end Runner

end IndexedQuery
