import IndexedQuery.Proofs.Context.Flattening
import IndexedQuery.Proofs.Runner.Recovery

namespace IndexedQuery

variable {σ α : Type}

def Query.withCondition (condition? : Option Expr) : Query → Query
  | .list plan => .list { plan with condition? }
  | .count plan => .count { plan with condition? }
  | .elements _ => .elements condition?

theorem contribution_congr {evaluator evaluator' : Evaluator}
    (h : ∀ bindings, evaluator.evaluate bindings = evaluator'.evaluate bindings)
    (emit : List Binding → Except Error α) :
    contribution (some evaluator) emit = contribution (some evaluator') emit := by
  funext bindings
  rw [contribution, contribution, satisfies, satisfies, h bindings]

namespace Expr.Flattens

variable {e e' : Expr} {r : Runner σ}

section Abreast

variable (h : e.Flattens e') (hand : r.context.scope.registry.isConjunction .and = true)

include h hand

theorem execute_abreast (args : List Value) (emit : List Binding → Except Error α) :
    Abreast Session.SameWork Eq (r.execute (some e) args emit) (r.execute (some e') args emit) := by
  unfold Runner.execute
  split
  · exact .throw _
  · refine (h.specialize_abreast hand).bind fun c _ hc => ?_
    cases hc
    have hR := Session.sameWork_bisimulation c.scope.source
    have hcompile : Alike
        (fun compiled? compiled'? => contribution compiled? emit = contribution compiled'? emit)
        (compile? c.scope.sources (some e)) (compile? c.scope.sources (some e')) :=
      (h.compile_alike c.scope.sources).map fun _ _ hsame => contribution_congr hsame emit
    refine (Run.lift_abreast hcompile).bind fun compiled? compiled'? hcontribution => ?_
    rw [hcontribution]
    refine Lockstep.abreast (.bind (iterate_lockstep ?_ _ 0 _) fun (found, _) => ?_)
    · exact fun source _ bindings => c.resolveUnder_lockstep hR source bindings
    · exact (hR.report _).bind fun _ => .pure found

theorem ask_abreast (args : List Value) (q : Query) :
    Abreast Session.SameWork Eq (r.ask args (q.withCondition (some e)))
      (r.ask args (q.withCondition (some e'))) := by
  cases q with
  | list plan =>
      refine Abreast.map (A := Eq) ?_ fun _ _ => congrArg Answer.tuples
      refine (Run.lift_lockstep _).abreast.bind fun projection _ hprojection => ?_
      cases hprojection
      exact h.execute_abreast hand args (project projection)
  | count plan =>
      refine Abreast.map (A := Eq) ?_ fun _ _ => congrArg Answer.number
      exact (h.execute_abreast hand args fun _ => .ok ()).bind fun _ _ hmarks =>
        .pure (congrArg List.length hmarks)
  | elements condition? =>
      refine Abreast.map (A := Eq) ?_ fun _ _ => congrArg Answer.rows
      simp only [Runner.elements]
      split
      · exact .throw _
      · exact (h.execute_abreast hand args fun bindings =>
          .ok (bindings.head?.bind (·.row?))).bind fun _ _ hheads =>
            .pure (congrArg List.reduceOption hheads)

end Abreast

/-- A condition and its flattened form compile alike and evaluate to the same. Where conjunctions
are searched for equalities, discovery does the same in both, down to the state it leaves, and so
does every query. -/
theorem indistinguishable (h : e.Flattens e') :
    (∀ sources, Alike (fun evaluator evaluator' =>
      ∀ bindings, evaluator.evaluate bindings = evaluator'.evaluate bindings)
      (compile sources e) (compile sources e')) ∧
    (∀ (c : Context σ) (s : Session σ), c.scope.registry.isConjunction .and = true →
      Extension.discover e (c, s) = Extension.discover e' (c, s)) ∧
    ∀ (r : Runner σ) (s : Session σ) (args : List Value) (q : Query),
      r.context.scope.registry.isConjunction .and = true →
        let nested := r.ask args (q.withCondition (some e)) s
        let flat := r.ask args (q.withCondition (some e')) s
        nested.1 = flat.1 ∧ nested.2.SameWork flat.2 := by
  refine ⟨h.compile_alike, fun c s hand => h.discover_eq hand s, ?_⟩
  intro r s args q hand
  exact (h.ask_abreast hand args q).lockstep ⟨rfl, rfl, rfl⟩

def catsWith (more : List Expr) : Expr :=
  .operation .and
    [.operation (.comparison .eq) [.path (.field "cat" "val" 1), .param "x"],
      .operation .and more]

def isCatA : Expr :=
  .operation (.comparison .eq) [.path (.field "cat" "name" 0), .constant (.string "a")]

def nestedCats : Expr :=
  catsWith [.operation .and [isCatA], .constant (.boolean true)]

def flatCats : Expr :=
  catsWith [isCatA, .constant (.boolean true)]

open ContextTree in
theorem indistinguishable_cats :
    let r := Runner.new cats.faultySource [.root "cat"] ["x"] .standard .standard
    let q : Query := .count ⟨none, []⟩
    let ask := fun condition faults =>
      r.ask [.int64 1] (q.withCondition (some condition)) (.start faults)
    nestedCats.Flattens flatCats ∧ r.context.scope.registry.isConjunction .and = true ∧
      (ask nestedCats [unreadableCat]).1 = (ask flatCats [unreadableCat]).1 ∧
      (ask flatCats [unreadableCat]).1 = .error (.source "cat" "unreadable") ∧
      (ask nestedCats []).1 = (ask flatCats []).1 ∧ (ask flatCats []).1 = .ok (.number 1) := by
  intro r q ask
  have h : nestedCats.Flattens flatCats :=
    .inside [_] [] (.here [] [.constant (.boolean true)] (by simp))
  have hand : r.context.scope.registry.isConjunction .and = true := rfl
  have hsame := fun s => (h.indistinguishable.2.2 r s [.int64 1] q hand).1
  exact ⟨h, hand, hsame _, rfl, hsame _, rfl⟩

end Expr.Flattens

end IndexedQuery
