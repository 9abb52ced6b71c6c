import IndexedQuery.Proofs.Evaluator.Slots
import IndexedQuery.Proofs.Value.Equality

namespace IndexedQuery

/-- The registry recognizes nothing as an equality that holds of different values, and nothing as a
conjunction that holds without all its operands. -/
structure Registry.Exact (registry : Registry) : Prop where
  equality : ∀ op, registry.isEquality op = true → op = .comparison .eq ∨ op = .member
  conjunction : ∀ op, registry.isConjunction op = true → op = .and

theorem Registry.standard_exact : Registry.standard.Exact where
  equality op h := by
    have hop : op = .comparison .eq := by simpa [standard, ofLists] using h
    exact .inl hop
  conjunction op h := by
    simpa [standard, ofLists] using h

namespace Expr

/-- The two sides of an equality operation. One with other than two operands has none. -/
def sides : List Expr → List (Expr × Expr)
  | [left, right] => [(left, right)]
  | _ => []

theorem mem_sides {args : List Expr} {equality : Expr × Expr} (h : equality ∈ sides args) :
    args = [equality.1, equality.2] := by
  unfold sides at h
  split at h
  · rw [List.mem_singleton.mp h]
  · cases h

mutual

/-- The equalities of a condition that are reached through conjunctions only, from left to right.
What is recognized as a conjunction is not asked whether it is an equality too. -/
def equalities (registry : Registry) : Expr → List (Expr × Expr)
  | .operation op args =>
      if registry.isConjunction op then equalitiesAll registry args
      else if registry.isEquality op then sides args
      else []
  | _ => []

def equalitiesAll (registry : Registry) : List Expr → List (Expr × Expr)
  | [] => []
  | e :: es => e.equalities registry ++ equalitiesAll registry es

end

end Expr

/-- Both sides have a value under the bindings, and the values are equal. -/
def EqualUnder (sources : List Expr) (bindings : List Binding) (equality : Expr × Expr) : Prop :=
  ∃ left right v w,
    Term.ofExpr sources equality.1 = .ok left ∧ left.eval bindings = .ok v ∧
    Term.ofExpr sources equality.2 = .ok right ∧ right.eval bindings = .ok w ∧ (v == w) = true

def IsTrue (o : Outcome) : Prop :=
  (o >>= Value.truth) = .ok true

theorem isTrue_boolean {b : Bool} : IsTrue (.ok (.boolean b)) ↔ b = true := by
  simp [IsTrue, Value.truth, bind, Except.bind]

theorem IsTrue.of_map {x : Except Error Bool} (h : IsTrue (Value.boolean <$> x)) :
    x = .ok true := by
  rcases x with e | b
  · cases h
  · rw [isTrue_boolean.mp h]

theorem allTrue_cons {o : Outcome} {os : List Outcome} (h : allTrue (o :: os) = .ok true) :
    IsTrue o ∧ allTrue os = .ok true := by
  rw [allTrue] at h
  rcases o with e | v
  · cases h
  · change (v.truth >>= fun b => if b then allTrue os else return false) = .ok true at h
    rcases htruth : v.truth with e | b
    · rw [htruth] at h
      cases h
    · rw [htruth] at h
      cases b with
      | false => cases h
      | true => exact ⟨htruth, h⟩

theorem anyEqual_singleton {v : Value} {o : Outcome} (h : anyEqual v [o] = .ok true) :
    ∃ w, o = .ok w ∧ (w == v) = true := by
  rcases o with e | w
  · cases h
  · refine ⟨w, rfl, ?_⟩
    change (if w == v then Except.ok true else .ok false : Except Error Bool) = .ok true at h
    split at h
    · assumption
    · cases h

theorem equal_of_isTrue {op : Operator} (hop : op = .comparison .eq ∨ op = .member)
    {o p : Outcome} (h : IsTrue (op.apply [o, p])) :
    ∃ v w, o = .ok v ∧ p = .ok w ∧ (v == w) = true := by
  rcases o with e | v
  · rcases hop with rfl | rfl <;> cases h
  · rcases hop with rfl | rfl
    · rcases p with e | w
      · cases h
      · exact ⟨v, w, rfl, rfl, isTrue_boolean.mp h⟩
    · obtain ⟨w, rfl, hw⟩ := anyEqual_singleton (IsTrue.of_map h)
      exact ⟨v, w, rfl, rfl, PartialEquivBEq.symm hw⟩

section Truth

variable {registry : Registry} {sources : List Expr} {bindings : List Binding}

mutual

/-- A true condition forces all its equalities, however deep the conjunctions are nested. -/
theorem equalUnder_of_isTrue (exact : registry.Exact) : (e : Expr) → ∀ {t : Term},
    Term.ofExpr sources e = .ok t → IsTrue (t.eval bindings) →
      ∀ equality ∈ e.equalities registry, EqualUnder sources bindings equality
  | .path _, _, _, _ => by simp [Expr.equalities]
  | .constant _, _, _, _ => by simp [Expr.equalities]
  | .param _, _, _, _ => by simp [Expr.equalities]
  | .operation op args, t, ht, htrue => by
      obtain ⟨-, ts, hargs, rfl⟩ := Term.ofExpr_operation_eq_ok ht
      rw [Term.eval] at htrue
      intro equality hmem
      rw [Expr.equalities] at hmem
      split at hmem
      · rename_i hconj
        rw [exact.conjunction op hconj, Operator.apply] at htrue
        exact equalUnder_of_allTrue exact args hargs (IsTrue.of_map htrue) equality hmem
      · split at hmem
        · rename_i heq
          rw [Expr.mem_sides hmem] at hargs
          obtain ⟨l, _, hl, hrest, rfl⟩ := Term.ofExprs_cons_eq_ok hargs
          obtain ⟨r, _, hr, hnil, rfl⟩ := Term.ofExprs_cons_eq_ok hrest
          cases hnil
          obtain ⟨v, w, hv, hw, hvw⟩ := equal_of_isTrue (exact.equality op heq) htrue
          exact ⟨l, r, v, w, hl, hv, hr, hw, hvw⟩
        · cases hmem

theorem equalUnder_of_allTrue (exact : registry.Exact) : (es : List Expr) → ∀ {ts : List Term},
    Term.ofExprs sources es = .ok ts → allTrue (Term.evalAll bindings ts) = .ok true →
      ∀ equality ∈ Expr.equalitiesAll registry es, EqualUnder sources bindings equality
  | [], _, _, _ => by simp [Expr.equalitiesAll]
  | e :: es, ts, hts, htrue => by
      obtain ⟨t, ts', he, hes, rfl⟩ := Term.ofExprs_cons_eq_ok hts
      rw [Term.evalAll] at htrue
      obtain ⟨hhead, htail⟩ := allTrue_cons htrue
      intro equality hmem
      rw [Expr.equalitiesAll] at hmem
      rcases List.mem_append.mp hmem with hmem | hmem
      · exact equalUnder_of_isTrue exact e he hhead equality hmem
      · exact equalUnder_of_allTrue exact es hes htail equality hmem

end

theorem equalUnder_of_compiled (exact : registry.Exact) {condition : Expr} {evaluator : Evaluator}
    (hcompile : compile sources condition = .ok evaluator)
    (htrue : IsTrue (evaluator.evaluate bindings)) :
    ∀ equality ∈ condition.equalities registry, EqualUnder sources bindings equality := by
  obtain ⟨t, hterm, heval⟩ := evaluate_of_compile hcompile
  rw [heval] at htrue
  exact equalUnder_of_isTrue exact condition hterm htrue

end Truth

end IndexedQuery
