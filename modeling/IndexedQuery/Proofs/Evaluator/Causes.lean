import IndexedQuery.Proofs.Evaluator.Slots

namespace IndexedQuery

/-- Every failure is one that `E` admits. -/
def FailsOnly {α : Type} (E : Error → Prop) (x : Except Error α) : Prop :=
  ∀ e, x = .error e → E e

namespace FailsOnly

variable {α β : Type} {E : Error → Prop}

theorem ok (a : α) : FailsOnly E (.ok a) := by
  rintro e ⟨⟩

theorem error {e : Error} (h : E e) : FailsOnly E (.error e : Except Error α) := by
  rintro _ ⟨⟩
  exact h

theorem bind {x : Except Error α} {f : α → Except Error β} (hx : FailsOnly E x)
    (hf : ∀ a, x = .ok a → FailsOnly E (f a)) : FailsOnly E (x >>= f) := by
  rcases x with e | a
  · exact .error (hx e rfl)
  · exact hf a rfl

theorem map {x : Except Error α} (f : α → β) (hx : FailsOnly E x) : FailsOnly E (f <$> x) := by
  rcases x with e | a
  · exact .error (hx e rfl)
  · exact .ok (f a)

end FailsOnly

/-- Errors that an operator raises over the values of its operands. -/
def Error.isOperational : Error → Bool
  | .typeMismatch .. | .invalidOperand .. | .overflow _ | .divisionByZero => true
  | _ => false

section Operators

variable {E : Error → Prop} {os : List Outcome} (own : ∀ e, e.isOperational = true → E e)

include own

theorem truth_failsOnly (v : Value) : FailsOnly E v.truth := by
  cases v with
  | null => exact .ok false
  | boolean b => exact .ok b
  | _ => exact .error (own _ rfl)

theorem allTrue_failsOnly (h : ∀ o ∈ os, FailsOnly E o) : FailsOnly E (allTrue os) := by
  induction os with
  | nil => exact .ok true
  | cons o os ih =>
      refine (h o (.head os)).bind fun v _ => (truth_failsOnly own v).bind fun b _ => ?_
      split
      · exact ih fun p hp => h p (.tail o hp)
      · exact .ok false

theorem anyTrue_failsOnly (h : ∀ o ∈ os, FailsOnly E o) : FailsOnly E (anyTrue os) := by
  induction os with
  | nil => exact .ok false
  | cons o os ih =>
      refine (h o (.head os)).bind fun v _ => (truth_failsOnly own v).bind fun b _ => ?_
      split
      · exact .ok true
      · exact ih fun p hp => h p (.tail o hp)

omit own in
theorem anyEqual_failsOnly (v : Value) (h : ∀ o ∈ os, FailsOnly E o) :
    FailsOnly E (anyEqual v os) := by
  induction os with
  | nil => exact .ok false
  | cons o os ih =>
      refine (h o (.head os)).bind fun w _ => ?_
      split
      · exact .ok true
      · exact ih fun p hp => h p (.tail o hp)

namespace Arithmetic

theorem bounded_failsOnly (op : Arithmetic) (n : Int) : FailsOnly E (op.bounded n) := by
  unfold bounded
  split
  · exact .ok _
  · exact .error (own _ rfl)

theorem onIntegers_failsOnly (op : Arithmetic) (a b : Int) : FailsOnly E (op.onIntegers a b) := by
  cases op with
  | add | sub | mul => exact bounded_failsOnly own _ _
  | div =>
      simp only [onIntegers]
      split
      · exact .error (own _ rfl)
      · exact bounded_failsOnly own _ _
  | mod =>
      simp only [onIntegers]
      split
      · exact .error (own _ rfl)
      · exact (bounded_failsOnly own _ _).bind fun _ _ => bounded_failsOnly own _ _

theorem apply_failsOnly (op : Arithmetic) (a b : Value) : FailsOnly E (op.apply a b) := by
  unfold apply
  split
  · exact .ok _
  · exact .ok _
  · exact onIntegers_failsOnly own op _ _
  · exact .ok _
  · exact .ok _
  · exact .ok _
  · split
    · exact .ok _
    · exact .error (own _ rfl)
  · exact .error (own _ rfl)

end Arithmetic

/-- An operation fails as one of its operands does, or over their values, or because their number is
not accepted. -/
theorem Operator.apply_failsOnly (op : Operator)
    (refusal : op.accepts os.length = false → E (.arity op os.length))
    (h : ∀ o ∈ os, FailsOnly E o) : FailsOnly E (op.apply os) := by
  unfold apply
  split
  · exact (allTrue_failsOnly own h).map _
  · exact (anyTrue_failsOnly own h).map _
  · exact (h _ (by simp)).bind fun v _ => (truth_failsOnly own v).bind fun b _ => .ok _
  · exact (h _ (by simp)).bind fun v _ => .ok _
  · exact (h _ (by simp)).bind fun v _ => .ok _
  · exact (h _ (by simp)).bind fun v _ =>
      (anyEqual_failsOnly v fun o ho => h o (by simp [ho])).map _
  · exact (h _ (by simp)).bind fun v _ => (h _ (by simp)).bind fun w _ => .ok _
  · exact (h _ (by simp)).bind fun v _ => (h _ (by simp)).bind fun w _ =>
      Arithmetic.apply_failsOnly own _ v w
  · -- None of the forms has matched, so it is the number of operands that is wrong.
    apply FailsOnly.error
    apply refusal
    clear h refusal own
    cases op <;> rcases os with _ | ⟨o, _ | ⟨p, _ | ⟨q, os⟩⟩⟩ <;>
      simp_all [accepts, minArity, maxArity?]

end Operators

end IndexedQuery
