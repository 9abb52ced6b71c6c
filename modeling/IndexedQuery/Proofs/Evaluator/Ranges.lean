import IndexedQuery.Proofs.Evaluator.Equalities
import IndexedQuery.Proofs.Value.SizeOrder

/-!
Range conditions. What lies between two bounds has the lower bound below the upper one, unless the
bounds are integers that become one float, and it is that float which lies between them.
-/

namespace IndexedQuery

theorem Comparison.le_holds_iff {a b : Value} (ha : a.isNull = false) (hb : b.isNull = false) :
    Comparison.le.holds a b = true ↔ (a.compareSize b).isLE = true := by
  simp [holds, ha, hb]

namespace Term

def atMost (lower upper : Term) : Term :=
  .operation (.comparison .le) [lower, upper]

/-- The condition that a term lies between two others. -/
def within (lower x upper : Term) : Term :=
  .operation .and [lower.atMost x, x.atMost upper]

variable {bindings : List Binding} {lower x upper : Term} {a b c : Value}

theorem eval_atMost (ha : lower.eval bindings = .ok a) (hb : upper.eval bindings = .ok b) :
    (lower.atMost upper).eval bindings = .ok (.boolean (Comparison.le.holds a b)) := by
  rw [atMost, eval, evalAll, evalAll, evalAll, ha, hb]
  rfl

theorem eval_within (ha : lower.eval bindings = .ok a) (hb : x.eval bindings = .ok b)
    (hc : upper.eval bindings = .ok c) :
    (lower.within x upper).eval bindings =
      .ok (.boolean (Comparison.le.holds a b && Comparison.le.holds b c)) := by
  rw [within, eval, evalAll, evalAll, evalAll, eval_atMost ha hb, eval_atMost hb hc]
  cases Comparison.le.holds a b <;> cases Comparison.le.holds b c <;> rfl

end Term

/-- Of values that are not null each is at most itself, and of any two one is at most the other. The
bounds of a value are in order exactly if they are not two integers that the value, a float, makes
the same. -/
theorem le_ordered_unless_blurred (a b c : Value) (ha : a.isNull = false) (hb : b.isNull = false)
    (hc : c.isNull = false) :
    Comparison.le.holds a a = true ∧
      (Comparison.le.holds a b = true ∨ Comparison.le.holds b a = true) ∧
      (Comparison.le.holds a b = true → Comparison.le.holds b c = true →
        (Comparison.le.holds a c = true ↔ ¬ a.Blurred b c)) ∧
      ∀ (bindings : List Binding) (lower x upper : Term), lower.eval bindings = .ok a →
        x.eval bindings = .ok b → upper.eval bindings = .ok c →
          IsTrue ((lower.within x upper).eval bindings) →
            (IsTrue ((lower.atMost upper).eval bindings) ↔ ¬ a.Blurred b c) := by
  have htrans : Comparison.le.holds a b = true → Comparison.le.holds b c = true →
      (Comparison.le.holds a c = true ↔ ¬ a.Blurred b c) := by
    rw [Comparison.le_holds_iff ha hb, Comparison.le_holds_iff hb hc, Comparison.le_holds_iff ha hc]
    exact Value.isLE_compareSize_iff
  refine ⟨?_, ?_, htrans, ?_⟩
  · exact (Comparison.le_holds_iff ha ha).mpr a.isLE_compareSize_self
  · rw [Comparison.le_holds_iff ha hb, Comparison.le_holds_iff hb ha]
    exact a.isLE_compareSize_total b
  · intro bindings lower x upper hlower hx hupper hwithin
    rw [Term.eval_within hlower hx hupper, isTrue_boolean, Bool.and_eq_true] at hwithin
    rw [Term.eval_atMost hlower hupper, isTrue_boolean]
    exact htrans hwithin.1 hwithin.2

/-- The integer past all exactly converted ones is at most the float before it, which is at most the
integer of the same size; but the first of these integers is not at most the second. -/
theorem le_pastExact :
    let past : Value := .int64 9007199254740993
    let float : Value := .float64 (.ofInt 9007199254740992)
    let before : Value := .int64 9007199254740992
    Comparison.le.holds past float = true ∧ Comparison.le.holds float before = true ∧
      Comparison.le.holds past before = false ∧
      (Term.within (.constant past) (.constant float) (.constant before)).eval [] =
        .ok (.boolean true) ∧
      (Term.atMost (.constant past) (.constant before)).eval [] = .ok (.boolean false) := by
  intro past float before
  have hfirst : Comparison.le.holds past float = true := by decide +kernel
  have hsecond : Comparison.le.holds float before = true := by decide +kernel
  have houter : Comparison.le.holds past before = false := by decide +kernel
  refine ⟨hfirst, hsecond, houter, ?_, ?_⟩
  · rw [Term.eval_within rfl rfl rfl, hfirst, hsecond]
    rfl
  · rw [Term.eval_atMost rfl rfl, houter]

theorem le_ordered_aroundExact :
    let past : Value := .int64 9007199254740993
    let float : Value := .float64 (.ofInt 9007199254740992)
    let before : Value := .int64 9007199254740992
    past.Blurred float before ∧ Comparison.le.holds past before = false ∧
      ¬ before.Blurred float past ∧ Comparison.le.holds before past = true ∧
      IsTrue ((Term.atMost (.constant before) (.constant past)).eval []) := by
  intro past float before
  have hblurred : past.Blurred float before :=
    .intro (by decide) (by decide +kernel) (by decide +kernel)
  have hsharp : ¬ before.Blurred float past := fun h => absurd h.lt (by decide)
  have hdown := le_ordered_unless_blurred past float before rfl rfl rfl
  have hup := le_ordered_unless_blurred before float past rfl rfl rfl
  have hfirst : Comparison.le.holds before float = true := by decide +kernel
  have hsecond : Comparison.le.holds float past = true := by decide +kernel
  refine ⟨hblurred, ?_, hsharp, (hup.2.2.1 hfirst hsecond).mpr hsharp, ?_⟩
  · have hiff := hdown.2.2.1 (by decide +kernel) (by decide +kernel)
    exact Bool.eq_false_iff.mpr fun hle => hiff.mp hle hblurred
  · apply (hup.2.2.2 [] (.constant before) (.constant float) (.constant past) rfl rfl rfl ?_).mpr
      hsharp
    rw [Term.eval_within rfl rfl rfl, hfirst, hsecond]
    rfl

end IndexedQuery
