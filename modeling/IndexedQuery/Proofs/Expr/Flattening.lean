import IndexedQuery.Proofs.Evaluator.Alike

namespace IndexedQuery

/-- A conjunction within another one is replaced by its operands. The outer one is the whole
expression or at a place of it that is reached through conjunctions only. -/
inductive Expr.Flattens : Expr → Expr → Prop where
  | here (pre : List Expr) {ys : List Expr} (post : List Expr) (nonempty : ys ≠ []) :
      Flattens (.operation .and (pre ++ .operation .and ys :: post))
        (.operation .and (pre ++ ys ++ post))
  | inside (pre : List Expr) {e e' : Expr} (post : List Expr) (h : Flattens e e') :
      Flattens (.operation .and (pre ++ e :: post)) (.operation .and (pre ++ e' :: post))

section Outcomes

variable (os ps : List Outcome)

theorem allTrue_append :
    allTrue (os ++ ps) = do if ← allTrue os then allTrue ps else return false := by
  induction os with
  | nil => rfl
  | cons o os ih =>
      rw [List.cons_append, allTrue, allTrue, ih]
      rcases o with e | v
      · rfl
      · rcases htruth : v.truth with e | _ | _ <;>
          simp [htruth, bind, Except.bind, pure, Except.pure]

theorem allTrue_cons_and : allTrue ((.boolean <$> allTrue os) :: ps) = allTrue (os ++ ps) := by
  rw [allTrue_append, allTrue]
  rcases allTrue os with e | b <;> rfl

end Outcomes

namespace Expr.Flattens

variable {e e' : Expr}

theorem meaning_eq (h : e.Flattens e') (env : Environment) : e.meaning env = e'.meaning env := by
  induction h with
  | here pre post nonempty =>
      simp only [meaning_operation, Operator.apply, List.map_append, List.map_cons,
        List.append_assoc]
      rw [allTrue_append, allTrue_cons_and, ← allTrue_append]
  | inside pre post _ ih =>
      simp only [meaning_operation, List.map_append, List.map_cons, ih]

end Expr.Flattens

namespace Term

variable {sources : List Expr}

theorem ofExprs_append (xs ys : List Expr) :
    ofExprs sources (xs ++ ys) = do return (← ofExprs sources xs) ++ (← ofExprs sources ys) := by
  induction xs with
  | nil =>
      rw [List.nil_append, ofExprs]
      rcases ofExprs sources ys with e | ts <;> rfl
  | cons x xs ih => simp [ofExprs, ih]

theorem ofExprs_singleton (e : Expr) : ofExprs sources [e] = ([·]) <$> ofExpr sources e := by
  rw [ofExprs, ofExprs]
  rcases ofExpr sources e with err | t <;> rfl

theorem ofExpr_and {args : List Expr} (h : args ≠ []) :
    ofExpr sources (.operation .and args) = .operation .and <$> ofExprs sources args := by
  have haccepts : Operator.and.accepts args.length = true := by
    simpa [Operator.accepts, Operator.minArity, Operator.maxArity?, Nat.one_le_iff_ne_zero] using h
  rw [ofExpr, if_pos haccepts, map_eq_pure_bind]

theorem ofExprs_alike (pre post : List Expr) {xs ys : List Expr}
    (h : Alike (fun _ _ => True) (ofExprs sources xs) (ofExprs sources ys)) :
    Alike (fun _ _ => True) (ofExprs sources (pre ++ xs ++ post))
      (ofExprs sources (pre ++ ys ++ post)) := by
  have hsame := fun es => Alike.refl (A := fun _ _ => True) (fun _ => trivial) (ofExprs sources es)
  simp only [ofExprs_append]
  refine Alike.bind (A := fun _ _ => True) ?_ fun _ _ _ => ?_
  · exact (hsame pre).bind fun _ _ _ => h.bind fun _ _ _ => .ok trivial
  · exact (hsame post).bind fun _ _ _ => .ok trivial

end Term

namespace Expr.Flattens

variable {e e' : Expr} {sources : List Expr}

theorem ofExpr_alike (h : e.Flattens e') :
    Alike (fun _ _ => True) (Term.ofExpr sources e) (Term.ofExpr sources e') := by
  induction h with
  | @here pre ys post nonempty =>
      rw [Term.ofExpr_and (by simp), Term.ofExpr_and (by simp [nonempty]), List.append_cons]
      refine (Term.ofExprs_alike pre post ?_).map fun _ _ _ => trivial
      rw [Term.ofExprs_singleton, Term.ofExpr_and nonempty]
      rcases Term.ofExprs sources ys with e | ts
      · exact .error e
      · exact .ok trivial
  | @inside pre e e' post _ ih =>
      rw [Term.ofExpr_and (by simp), Term.ofExpr_and (by simp), List.append_cons,
        List.append_cons pre e']
      refine (Term.ofExprs_alike pre post ?_).map fun _ _ _ => trivial
      rw [Term.ofExprs_singleton, Term.ofExprs_singleton]
      exact ih.map fun _ _ _ => trivial

/-- Both conditions fail to compile for the same reason, or both evaluate to the same value or the
same error whatever is bound. -/
theorem compile_alike (h : e.Flattens e') (sources : List Expr) :
    Alike (fun evaluator evaluator' =>
      ∀ bindings, evaluator.evaluate bindings = evaluator'.evaluate bindings)
      (compile sources e) (compile sources e') := by
  apply IndexedQuery.compile_alike h.ofExpr_alike
  intro evaluator evaluator' hev hev' bindings
  rw [(evaluate_eq_meaning hev bindings).1, (evaluate_eq_meaning hev' bindings).1, h.meaning_eq]

end Expr.Flattens

end IndexedQuery
