import IndexedQuery.Expr.Meaning
import IndexedQuery.Proofs.Evaluator.Slots

/-!
Compiling preserves meaning. To look a name up once and for all is as good as to look it up whenever
it is met, and an operator that is handed the outcomes of all its operands sees of them what it would
have waited for.
-/

namespace IndexedQuery

namespace Expr

variable (env : Environment)

theorem allHold_eq_allTrue (es : List Expr) :
    allHold env es = allTrue (es.map (·.meaning env)) := by
  induction es with
  | nil => simp [allHold, allTrue]
  | cons e es ih => simp [allHold, allTrue, ih]

theorem anyHolds_eq_anyTrue (es : List Expr) :
    anyHolds env es = anyTrue (es.map (·.meaning env)) := by
  induction es with
  | nil => simp [anyHolds, anyTrue]
  | cons e es ih => simp [anyHolds, anyTrue, ih]

theorem anyIs_eq_anyEqual (v : Value) (es : List Expr) :
    anyIs env v es = anyEqual v (es.map (·.meaning env)) := by
  induction es with
  | nil => simp [anyIs, anyEqual]
  | cons e es ih => simp [anyIs, anyEqual, ih]

theorem meaning_operation (op : Operator) (args : List Expr) :
    (Expr.operation op args).meaning env = op.apply (args.map (·.meaning env)) := by
  cases op with
  | and => simp [meaning, Operator.apply, allHold_eq_allTrue]
  | or => simp [meaning, Operator.apply, anyHolds_eq_anyTrue]
  | member =>
      rcases args with _ | ⟨arg, list⟩
      · simp [meaning, Operator.apply]
      · simp [meaning, Operator.apply, anyIs_eq_anyEqual]
  | not | isNull | isNotNull =>
      rcases args with _ | ⟨arg, _ | ⟨_, _⟩⟩ <;> simp [meaning, Operator.apply]
  | comparison c | arithmetic a =>
      rcases args with _ | ⟨left, _ | ⟨right, _ | ⟨_, _⟩⟩⟩ <;> simp [meaning, Operator.apply]

end Expr

namespace Term

variable {sources : List Expr} {bindings : List Binding}

mutual

theorem eval_ofExpr : (e : Expr) → ∀ {t : Term}, ofExpr sources e = .ok t →
    t.eval bindings = e.meaning (.ofBindings sources bindings)
  | .constant v, t, h => by
      cases h
      simp [eval, Expr.meaning]
  | .path (.root name), t, h => by
      cases h
  | .path (.field source name index), t, h => by
      obtain ⟨slot, hslot, rfl⟩ := ofExpr_field_eq_ok h
      rw [rootSlot?] at hslot
      simp [eval, Expr.meaning, Environment.ofBindings, hslot]
  | .param name, t, h => by
      obtain ⟨slot, hslot, rfl⟩ := ofExpr_param_eq_ok h
      rw [paramSlot?] at hslot
      simp [eval, Expr.meaning, Environment.ofBindings, hslot]
  | .operation op args, t, h => by
      obtain ⟨-, ts, hargs, rfl⟩ := ofExpr_operation_eq_ok h
      rw [eval, Expr.meaning_operation, evalAll_ofExprs args hargs]

theorem evalAll_ofExprs : (es : List Expr) → ∀ {ts : List Term}, ofExprs sources es = .ok ts →
    evalAll bindings ts = es.map (·.meaning (.ofBindings sources bindings))
  | [], ts, h => by
      cases h
      rfl
  | e :: es, ts, h => by
      obtain ⟨t, ts', he, hes, rfl⟩ := ofExprs_cons_eq_ok h
      rw [evalAll, List.map_cons, eval_ofExpr e he, evalAll_ofExprs es hes]

end

end Term

/-- What is compiled evaluates to what the expression means. A static evaluator does so too, although
it never sees the bindings. -/
theorem evaluate_eq_meaning {sources : List Expr} {e : Expr} {evaluator : Evaluator}
    (h : compile sources e = .ok evaluator) (bindings : List Binding) :
    evaluator.evaluate bindings = e.meaning (.ofBindings sources bindings) ∧
      ∀ outcome, evaluator.static? = some outcome →
        outcome = e.meaning (.ofBindings sources bindings) := by
  obtain ⟨t, hterm, heval⟩ := evaluate_of_compile h
  have hmeaning : evaluator.evaluate bindings = e.meaning (.ofBindings sources bindings) := by
    rw [heval, Term.eval_ofExpr e hterm]
  refine ⟨hmeaning, ?_⟩
  intro outcome hstatic
  cases evaluator with
  | static term =>
      cases hstatic
      exact hmeaning
  | bound term dependencies => cases hstatic

/-- The quotient cannot be computed where the parameter is one, and is not needed there. -/
def isOneOrQuotient : Expr :=
  .operation .or
    [.operation (.comparison .eq) [.param "x", .constant (.int64 1)],
      .operation (.comparison .eq)
        [.operation (.arithmetic .div)
          [.constant (.int64 6),
            .operation (.arithmetic .sub) [.param "x", .constant (.int64 1)]],
          .path (.field "cat" "val" 0)]]

def oneAmongOneAndQuotient : Expr :=
  .memberOf (.constant (.int64 1))
    [.constant (.int64 1),
      .operation (.arithmetic .div) [.constant (.int64 1), .constant (.int64 0)]]

theorem meaning_isOneOrQuotient :
    let sources : List Expr := [.path (.root "cat"), .param "x"]
    let bindings (x : Int64) : List Binding := [.element ⟨1, [.int64 3]⟩, .value (.int64 x)]
    (∃ evaluator, compile sources isOneOrQuotient = .ok evaluator ∧
      evaluator.isStatic = false ∧
      evaluator.evaluate (bindings 1) =
        isOneOrQuotient.meaning (.ofBindings sources (bindings 1)) ∧
      evaluator.evaluate (bindings 1) = .ok (.boolean true) ∧
      evaluator.evaluate (bindings 3) = .ok (.boolean true) ∧
      evaluator.evaluate [] = .error (.binding 1 .unbound)) ∧
    ∃ evaluator, compile sources oneAmongOneAndQuotient = .ok evaluator ∧
      evaluator.isStatic = true ∧
      evaluator.static? = some (oneAmongOneAndQuotient.meaning (.ofBindings sources [])) ∧
      evaluator.evaluate [] = .ok (.boolean true) := by
  intro sources bindings
  constructor
  · have hcompile : compile sources isOneOrQuotient = .ok _ := rfl
    refine ⟨_, hcompile, rfl, (evaluate_eq_meaning hcompile (bindings 1)).1, rfl, rfl, rfl⟩
  · have hcompile : compile sources oneAmongOneAndQuotient = .ok _ := rfl
    refine ⟨_, hcompile, rfl, ?_, rfl⟩
    exact congrArg some ((evaluate_eq_meaning hcompile []).2 _ rfl)

end IndexedQuery
