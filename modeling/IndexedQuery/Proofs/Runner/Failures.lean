import IndexedQuery.Proofs.Context.Failures
import IndexedQuery.Proofs.Runner.Recovery

/-!
How runners fail. No slot is ever read before it is bound, so that an alarm in place of an
evaluation that is not ready would never be raised, and no internal error comes out of a query
unless the source brought it in.
-/

namespace IndexedQuery

variable {σ α : Type} {roots : List Path} {params : List String} {args : List Value}

section Slots

theorem suits_boundSoFar {bound : List Row} {free slot : Nat} {leaf : Expr}
    (hargs : args.length = params.length) (hroots : bound.length + free = roots.length)
    (hslot : leafSlot? (sourcesOf roots params) leaf = some slot)
    (hreached : ∀ p, leaf = .path p → slot < bound.length) :
    ((boundSoFar bound free args).getD slot .unbound).suits leaf = true := by
  cases leaf with
  | path p =>
      rw [getD_boundSoFar_of_bound free args (List.getElem?_eq_getElem (hreached p rfl))]
      rfl
  | param name =>
      rw [leafSlot?, paramSlot?_sourcesOf] at hslot
      obtain ⟨i, hi, rfl⟩ := Option.map_eq_some_iff.mp hslot
      have hlt : i < args.length := by
        rw [List.findIdx?_eq_some_iff_getElem] at hi
        obtain ⟨hlt, -⟩ := hi
        rwa [hargs]
      rw [getD_boundSoFar_of_param hroots (List.getElem?_eq_getElem hlt)]
      rfl
  | constant v => cases hslot
  | operation op es => cases hslot

theorem isReady_bindingsOf {e : Expr} {evaluator : Evaluator} {tuple : List Row}
    (hcompile : compile (sourcesOf roots params) e = .ok evaluator)
    (hargs : args.length = params.length) (htuple : tuple.length = roots.length) :
    evaluator.isReady (bindingsOf tuple args) = true := by
  apply Evaluator.isReady_of_compile hcompile
  intro leaf _ slot hslot
  rw [bindingsOf_eq_boundSoFar]
  apply suits_boundSoFar hargs htuple hslot
  rintro p rfl
  rw [leafSlot?, rootSlot?_sourcesOf, List.findIdx?_eq_some_iff_getElem] at hslot
  obtain ⟨hlt, -⟩ := hslot
  rwa [htuple]

/-- The key of a root finds its slots bound when the root is resolved. -/
theorem Context.Keyed.isReady {scope : Scope σ} {c : Context σ} (hc : c.Keyed scope)
    (hsources : scope.sources = sourcesOf roots params) (hargs : args.length = params.length)
    {i : Nat} {root : Path} (hroot : roots[i]? = some root) {bound : List Row}
    (hbound : bound.length = i) {r : Registration}
    (hreg : c.registration? (.path root.toRoot) = some r) :
    r.key.isReady (boundSoFar bound (roots.length - i) args) = true := by
  obtain ⟨source, hsource, hkeyed⟩ := hc.registration hreg
  cases hkeyed with
  | @intro _ name k slot key evaluator hslot hbefore hcompile =>
      cases hsource
      rw [hsources] at hslot hbefore hcompile
      have hfirst : slot ≤ i := rootSlot?_le (getElem?_sourcesOf hroot) hslot
      have hlt : i < roots.length := (List.getElem?_eq_some_iff.mp hroot).1
      apply Evaluator.isReady_of_compile hcompile
      intro leaf hleaf read hread
      apply suits_boundSoFar hargs (by omega) hread
      rintro p rfl
      have hearlier := List.all_eq_true.mp hbefore p.rootName (Expr.mem_rootsRead hleaf)
      rw [show rootSlot? (sourcesOf roots params) p.rootName = some read from hread] at hearlier
      have hread' : read < slot := by simpa using hearlier
      omega

end Slots

section Outcomes

variable {condition? : Option Evaluator} {projection : List Evaluator}
  {emit : List Binding → Except Error α} {bindings : List Binding}

theorem contribution_outward (hcondition : condition?.all (·.isReady bindings) = true)
    (hemit : Outward (emit bindings)) : Outward (contribution condition? emit bindings) := by
  have hsatisfies : Outward (satisfies condition? bindings) := by
    cases condition? with
    | none => exact .ok true
    | some condition =>
        exact (condition.evaluate_outward hcondition).bind fun v _ => truth_outward v
  refine hsatisfies.bind fun b _ => ?_
  cases b with
  | true => exact hemit.bind fun a _ => .ok [a]
  | false => exact .ok []

theorem project_outward (h : projection.all (·.isReady bindings) = true) :
    Outward (project projection bindings) := by
  unfold project
  split
  · exact .ok _
  · exact .mapM fun evaluator hevaluator =>
      evaluator.evaluate_outward (List.all_eq_true.mp h evaluator hevaluator)

end Outcomes

theorem walk_outward {P : Session σ → Prop} {resolve : Expr → List Binding → Run σ Elements}
    {leaf : List Row → Except Error (List α)} {bound : List Row} {sources : List Expr}
    (hresolve : ∀ source ∈ sources, ∀ bindings,
      Ensures P (·.isInternal = false) Elements.FailsOutward (resolve source bindings))
    (hleaf : ∀ tuple, tuple.length = bound.length + sources.length → Outward (leaf tuple)) :
    Ensures P (·.isInternal = false) (fun _ => True) (walk resolve leaf args bound sources) := by
  induction sources generalizing bound with
  | nil => exact Run.lift_ensures (fun _ _ => trivial) (hleaf bound rfl)
  | cons source sources ih =>
      have hinner : ∀ row, Ensures P (·.isInternal = false) (fun _ => True)
          (walk resolve leaf args (bound ++ [row]) sources) := by
        intro row
        apply ih fun other hother => hresolve other (.tail source hother)
        intro tuple htuple
        apply hleaf
        rw [htuple, List.length_append, List.length_singleton, List.length_cons]
        omega
      refine (hresolve source (.head sources) _).bind fun elements helements => ?_
      refine Ensures.bind (Ensures.mapM (R := fun _ => True) fun item hitem => ?_) fun _ _ => ?_
      · exact (Run.lift_ensures (fun _ h => h) (helements item hitem)).bind fun row _ => hinner row
      · exact .pure trivial

/-! ## Alarms -/

/-- Resolves a source expression, but raises the alarm if that takes a key that is not ready. -/
def Context.resolveGuarded (alarm : Error) (c : Context σ) (queried : Expr)
    (bindings : List Binding) : Run σ Elements :=
  if (c.registration? queried).all (·.key.isReady bindings) then c.resolveUnder queried bindings
  else throw alarm

def satisfiesGuarded (alarm : Error) (condition? : Option Evaluator) (bindings : List Binding) :
    Except Error Bool :=
  if condition?.all (·.isReady bindings) then satisfies condition? bindings else .error alarm

def projectGuarded (alarm : Error) (projection : List Evaluator) (bindings : List Binding) :
    Except Error (List Value) :=
  if projection.all (·.isReady bindings) then project projection bindings else .error alarm

def contributionGuarded (alarm : Error) (condition? : Option Evaluator)
    (emit : List Binding → Except Error α) (bindings : List Binding) : Except Error (List α) := do
  if ← satisfiesGuarded alarm condition? bindings then return [← emit bindings] else return []

namespace Runner

def executeGuarded (alarm : Error) (r : Runner σ) (condition? : Option Expr) (args : List Value)
    (emit : List Binding → Except Error α) : Run σ (List α) := do
  if args.length ≠ r.params then
    throw (.invalidQuery s!"expected {r.params} parameter(s), got {args.length}")
  else
    let context ← r.context.specialize condition?
    let sources := context.scope.sources
    let compiled? ← compile? sources condition?
    let roots := sources.take r.roots
    let bindings := .replicate r.roots .unbound ++ args.map .value
    let (found, _) ← iterate (context.resolveGuarded alarm)
      (contributionGuarded alarm compiled? emit) 0 roots bindings
    Run.report (.executed (roots.countP context.isIndexed) r.roots)
    return found

/-- Answers a query like a runner, but raises the alarm before it evaluates a key, the condition or
the projection while one of the slots read there is not bound to what it takes. -/
def askGuarded (alarm : Error) (r : Runner σ) (args : List Value) : Query → Run σ Answer
  | .list plan => .tuples <$> do
      let projection ← compileAll r.context.scope.sources plan.projection
      r.executeGuarded alarm plan.condition? args (projectGuarded alarm projection)
  | .count plan => .number <$> do
      return (← r.executeGuarded alarm plan.condition? args fun _ => .ok ()).length
  | .elements condition? => .rows <$> do
      if r.roots ≠ 1 then
        throw (.invalidQuery s!"elements needs exactly one root, runner has {r.roots}")
      else
        let found ← r.executeGuarded alarm condition? args fun bindings =>
          .ok (bindings.head?.bind (·.row?))
        return found.reduceOption

namespace MadeFor

variable {r : Runner σ}

theorem keyed (hr : r.MadeFor roots params) : r.context.Keyed r.context.scope :=
  ⟨rfl, by simp [hr.unregistered]⟩

theorem all_isReady (hr : r.MadeFor roots params) {condition? : Option Expr}
    {compiled? : Option Evaluator}
    (hcompile : compile? r.context.scope.sources condition? = .ok compiled?)
    (hargs : args.length = params.length) {tuple : List Row}
    (htuple : tuple.length = roots.length) :
    compiled?.all (·.isReady (bindingsOf tuple args)) = true := by
  rw [hr.sources] at hcompile
  cases condition? with
  | none =>
      cases hcompile
      rfl
  | some condition =>
      rcases hcondition : compile (sourcesOf roots params) condition with e | evaluator
      · rw [compile?, hcondition] at hcompile
        cases hcompile
      · rw [compile?, hcondition] at hcompile
        cases hcompile
        exact isReady_bindingsOf hcondition hargs htuple

theorem projection_isReady (hr : r.MadeFor roots params) {es : List Expr}
    {projection : List Evaluator}
    (hcompile : compileAll r.context.scope.sources es = .ok projection)
    (hargs : args.length = params.length) {tuple : List Row}
    (htuple : tuple.length = roots.length) :
    projection.all (·.isReady (bindingsOf tuple args)) = true := by
  rw [hr.sources] at hcompile
  have hall := compileAll_eq_ok hcompile
  clear hcompile
  induction hall with
  | nil => rfl
  | cons hcompile _ ih =>
      rw [List.all_cons, Bool.and_eq_true]
      exact ⟨isReady_bindingsOf hcompile hargs htuple, ih⟩

theorem walk_guarded (hr : r.MadeFor roots params) {c : Context σ}
    (hc : c.Keyed r.context.scope) (alarm : Error) (hargs : args.length = params.length)
    {condition? : Option Expr} {compiled? : Option Evaluator}
    (hcompile : compile? r.context.scope.sources condition? = .ok compiled?)
    {emit emit' : List Binding → Except Error α}
    (hemit : ∀ tuple, tuple.length = roots.length →
      emit (bindingsOf tuple args) = emit' (bindingsOf tuple args)) :
    walk (c.resolveGuarded alarm)
        (fun tuple => contributionGuarded alarm compiled? emit (bindingsOf tuple args)) args []
        (rootExprs roots) =
      walk c.resolveUnder
        (fun tuple => contribution compiled? emit' (bindingsOf tuple args)) args []
        (rootExprs roots) := by
  apply walk_rootExprs_congr
  · intro i root hroot bound hbound
    have hready : (c.registration? (.path root.toRoot)).all
        (·.key.isReady (boundSoFar bound (roots.length - i) args)) = true := by
      rcases hreg : c.registration? (.path root.toRoot) with _ | registration
      · rfl
      · exact hc.isReady hr.sources hargs hroot hbound hreg
    rw [Context.resolveGuarded, if_pos hready]
  · intro tuple htuple
    rw [contributionGuarded, satisfiesGuarded, if_pos (hr.all_isReady hcompile hargs htuple),
      hemit tuple htuple, contribution]

theorem executeGuarded_eq_execute (hr : r.MadeFor roots params) (alarm : Error)
    (condition? : Option Expr) (args : List Value) {emit emit' : List Binding → Except Error α}
    (hemit : args.length = params.length → ∀ tuple, tuple.length = roots.length →
      emit (bindingsOf tuple args) = emit' (bindingsOf tuple args)) :
    r.executeGuarded alarm condition? args emit = r.execute condition? args emit' := by
  unfold executeGuarded execute
  split
  · rfl
  · rename_i hargs
    rw [not_not, hr.params_eq] at hargs
    funext s
    obtain ⟨-, hkeyed⟩ := Context.specialize_keyed hr.keyed condition? s trivial
    rcases hspecialize : r.context.specialize condition? s with ⟨e | c, s'⟩
    · rw [bind_of_error hspecialize, bind_of_error hspecialize]
    · rw [hspecialize] at hkeyed
      have hc : c.Keyed r.context.scope := hkeyed
      rw [bind_of_ok hspecialize, bind_of_ok hspecialize]
      simp only [hc.scope_eq, hr.take_sources, hr.iterate_roots]
      refine congrFun (Run.lift_bind_congr fun compiled? hcompile => ?_) s'
      rw [hr.walk_guarded hc alarm hargs hcompile (hemit hargs)]

theorem askGuarded_eq_ask (hr : r.MadeFor roots params) (alarm : Error) (args : List Value)
    (q : Query) : r.askGuarded alarm args q = r.ask args q := by
  cases q with
  | list plan =>
      rw [askGuarded, ask, list]
      refine congrArg _ (Run.lift_bind_congr fun projection hprojection => ?_)
      apply hr.executeGuarded_eq_execute
      intro hargs tuple htuple
      rw [projectGuarded, if_pos (hr.projection_isReady hprojection hargs htuple)]
  | count plan =>
      rw [askGuarded, ask, count, hr.executeGuarded_eq_execute]
      exact fun _ _ _ => rfl
  | elements condition? =>
      rw [askGuarded, ask, elements, hr.executeGuarded_eq_execute]
      exact fun _ _ _ => rfl

/-! ## Errors -/

theorem execute_outward (hr : r.MadeFor roots params) (condition? : Option Expr)
    (args : List Value) (emit : List Binding → Except Error α)
    (hemit : args.length = params.length → ∀ tuple, tuple.length = roots.length →
      Outward (emit (bindingsOf tuple args))) :
    Ensures (Session.FailsOutward r.context.scope.source) (·.isInternal = false) (fun _ => True)
      (r.execute condition? args emit) := by
  rw [hr.execute_eq_walk, executeByWalk]
  split
  · exact .throw rfl
  · rename_i hargs
    rw [not_not, hr.params_eq] at hargs
    refine (Context.specialize_outward hr.keyed condition?).bind fun c hc => ?_
    have hcompiled : Outward (compile? r.context.scope.sources condition?) :=
      compile?_outward condition?
    refine (Run.lift_ensures (fun _ h => h) hcompiled).bind fun compiled? hcompile => ?_
    refine Ensures.bind (walk_outward ?_ ?_) fun found _ => ?_
    · intro source hsource bindings
      obtain ⟨root, -, rfl⟩ := List.mem_map.mp hsource
      rw [← hc.scope_eq]
      exact c.resolveUnder_outward root.toRoot bindings
    · intro tuple htuple
      rw [List.length_nil, Nat.zero_add, length_rootExprs] at htuple
      exact contribution_outward (hr.all_isReady hcompile hargs htuple) (hemit hargs tuple htuple)
    · exact (Run.report_outward _ _).bind fun _ _ => .pure trivial

theorem ask_outward (hr : r.MadeFor roots params) (args : List Value) (q : Query) :
    Ensures (Session.FailsOutward r.context.scope.source) (·.isInternal = false) (fun _ => True)
      (r.ask args q) := by
  cases q with
  | list plan =>
      refine Ensures.map (Q := fun _ => True) ?_ fun _ _ => trivial
      refine (Run.lift_ensures (fun projection h => h) (compileAll_outward plan.projection)).bind
        fun projection hprojection => ?_
      apply hr.execute_outward
      intro hargs tuple htuple
      exact project_outward (hr.projection_isReady hprojection hargs htuple)
  | count plan =>
      refine Ensures.map (Q := fun _ => True) ?_ fun _ _ => trivial
      have hexecute := hr.execute_outward plan.condition? args (fun _ => .ok ()) fun _ _ _ => .ok ()
      exact hexecute.bind fun _ _ => .pure trivial
  | elements condition? =>
      refine Ensures.map (Q := fun _ => True) ?_ fun _ _ => trivial
      unfold elements
      split
      · exact .throw rfl
      · have hexecute := hr.execute_outward condition? args
          (fun bindings => .ok (bindings.head?.bind (·.row?))) fun _ _ _ => .ok _
        exact hexecute.bind fun _ _ => .pure trivial

end MadeFor

/-- No internal error comes out of a query that the source has not brought in, whatever the session
has been through, and every evaluation finds its slots bound to what it takes there. -/
theorem ask_never_internal (source : Source σ) (roots : List Path) (params : List String)
    (registry : Registry) (config : Config) {s : Session σ} (hs : source.FailsOutward s.source)
    (history : List (Query × List Value)) (args : List Value) (q : Query) :
    let r := Runner.new source roots params registry config
    (∀ e, (r.ask args q (r.after history s)).1 = .error e → e.isInternal = false) ∧
      ∀ alarm, r.askGuarded alarm args q = r.ask args q := by
  intro r
  have hr : r.MadeFor roots params := new_madeFor source roots params registry config
  constructor
  · intro e he
    have hafter : source.FailsOutward (r.after history s).source :=
      r.after_keeps (P := Session.FailsOutward source) (Session.failsOutward_persistent source)
        history hs
    obtain ⟨-, houtcome⟩ := hr.ask_outward args q (r.after history s) hafter
    rwa [he] at houtcome
  · exact fun alarm => hr.askGuarded_eq_ask alarm args q

open ContextTree in
theorem ask_twoCats :
    let r := Runner.new cats.faultySource [.root "cat", .root "cat"] ["x"] .standard .standard
    let s := Session.start [unreadableCat]
    (r.ask [.int64 1] catsWithKey (r.after [] s)).1 = .error (.source "cat" "unreadable") ∧
      (∀ e, (r.ask [.int64 1] catsWithKey (r.after [] s)).1 = .error e → e.isInternal = false) ∧
      (r.ask [.int64 1] catsWithKey (r.after [(catsWithKey, [.int64 1])] s)).1 =
        .ok (.number 4) ∧
      ∀ alarm, r.askGuarded alarm [.int64 1] catsWithKey = r.ask [.int64 1] catsWithKey := by
  intro r s
  have hs : cats.faultySource.FailsOutward s.source :=
    cats.faultySource_failsOutward [unreadableCat]
  obtain ⟨hfailure, hguarded⟩ := ask_never_internal cats.faultySource [.root "cat", .root "cat"]
    ["x"] .standard .standard hs [] [.int64 1] catsWithKey
  exact ⟨rfl, hfailure, by rfl, hguarded⟩

end Runner

end IndexedQuery
