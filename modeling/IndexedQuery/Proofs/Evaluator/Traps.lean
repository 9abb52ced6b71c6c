import IndexedQuery.Proofs.Evaluator.Dependencies

/-!
Evaluation on a machine that does what it is told. It takes operands by position whether or not they
are there, compares and computes with any operator, and calculates with words of sixty-four bits.
What has been compiled it evaluates without being trapped.
-/

namespace IndexedQuery

/-- What brings a machine to a halt. -/
inductive Trap where
  /-- There is no operand at the position. -/
  | operand (position : Nat)
  | notComparison (op : Operator)
  | notArithmetic (op : Operator)
  /-- The word is not the exact result, or there is no result at all. -/
  | integer (op : Arithmetic)
deriving DecidableEq

namespace Arithmetic

/-- Whether a word can hold the number. -/
def Fits (n : Int) : Prop :=
  Int64.minValue.toInt ≤ n ∧ n ≤ Int64.maxValue.toInt

instance (n : Int) : Decidable (Fits n) :=
  inferInstanceAs (Decidable (_ ∧ _))

def exactly (op : Arithmetic) (word : Int64) (exact : Int) : Except Trap Int64 :=
  if word.toInt = exact then .ok word else .error (.integer op)

/-- The operation on words. A remainder is computed along with its quotient. -/
def onWords (op : Arithmetic) (a b : Int64) : Except Trap Int64 :=
  match op with
  | .add => op.exactly (a + b) (a.toInt + b.toInt)
  | .sub => op.exactly (a - b) (a.toInt - b.toInt)
  | .mul => op.exactly (a * b) (a.toInt * b.toInt)
  | .div =>
      if b = 0 then .error (.integer op) else op.exactly (a / b) (a.toInt.tdiv b.toInt)
  | .mod =>
      if b = 0 then .error (.integer op)
      else do
        let _ ← op.exactly (a / b) (a.toInt.tdiv b.toInt)
        op.exactly (a % b) (a.toInt.tmod b.toInt)

def divides : Arithmetic → Bool
  | .div | .mod => true
  | _ => false

/-- The number that is checked before the operation: its result, or for a remainder the quotient. -/
def gauge (op : Arithmetic) (a b : Int) : Int :=
  match op with
  | .add => a + b
  | .sub => a - b
  | .mul => a * b
  | .div | .mod => a.tdiv b

/-- The operation on words, behind the checks that it takes. -/
def checked (op : Arithmetic) (a b : Int64) : Except Trap Outcome :=
  if op.divides && b == 0 then .ok (.error .divisionByZero)
  else if Fits (op.gauge a.toInt b.toInt) then (fun word => .ok (.int64 word)) <$> op.onWords a b
  else .ok (.error (.overflow (.arithmetic op)))

section Integers

variable {op : Arithmetic} {a b word : Int64} {exact : Int}

theorem fits_toInt (a : Int64) : Fits a.toInt :=
  ⟨a.minValue_le_toInt, a.toInt_le⟩

theorem bmod_of_fits (h : Fits exact) : exact.bmod Int64.size = exact := by
  have hsize : Int64.size = 2 ^ 64 := rfl
  have hmin : Int64.minValue.toInt = -2 ^ 63 := by decide
  have hmax : Int64.maxValue.toInt = 2 ^ 63 - 1 := by decide
  obtain ⟨hlower, hupper⟩ := h
  apply Int.bmod_eq_of_le <;> omega

theorem exactly_of_fits (hword : word.toInt = exact.bmod Int64.size) (h : Fits exact) :
    op.exactly word exact = .ok (.ofInt exact) := by
  rw [bmod_of_fits h] at hword
  rw [exactly, if_pos hword, ← hword, Int64.ofInt_toInt]

theorem bounded_of_fits (h : Fits exact) : op.bounded exact = .ok (.int64 (.ofInt exact)) :=
  if_pos h

theorem bounded_of_not_fits (h : ¬ Fits exact) :
    op.bounded exact = .error (.overflow (.arithmetic op)) :=
  if_neg h

theorem fits_tmod (a b : Int64) : Fits (a.toInt.tmod b.toInt) := by
  rw [← Int64.toInt_mod]
  exact fits_toInt _

theorem ite_fits_eq (hword : word.toInt = exact.bmod Int64.size) :
    (if Fits exact then (fun word => .ok (.int64 word)) <$> op.exactly word exact
      else .ok (.error (.overflow (.arithmetic op))) : Except Trap Outcome) =
      .ok (op.bounded exact) := by
  split
  · rename_i h
    rw [exactly_of_fits hword h, bounded_of_fits h]
    rfl
  · rename_i h
    rw [bounded_of_not_fits h]

theorem checked_of_divides (hop : op.divides = true) (hb : b ≠ 0) :
    op.checked a b =
      if Fits (a.toInt.tdiv b.toInt) then (fun word => .ok (.int64 word)) <$> op.onWords a b
      else .ok (.error (.overflow (.arithmetic op))) := by
  rw [checked, if_neg (by simp [hb])]
  cases op with
  | add | sub | mul => cases hop
  | div | mod => rfl

/-- Integers are calculated with as if words had no end. -/
theorem checked_eq (op : Arithmetic) (a b : Int64) :
    op.checked a b = .ok (op.onIntegers a.toInt b.toInt) := by
  have hzero : b.toInt = 0 ↔ b = 0 := Int64.toInt_inj (y := 0)
  cases op with
  | add => exact ite_fits_eq (Int64.toInt_add a b)
  | sub => exact ite_fits_eq (Int64.toInt_sub a b)
  | mul => exact ite_fits_eq (Int64.toInt_mul a b)
  | div =>
      by_cases hb : b = 0
      · subst hb
        rfl
      · rw [checked_of_divides rfl hb, onIntegers, if_neg (mt hzero.mp hb), onWords, if_neg hb]
        exact ite_fits_eq (Int64.toInt_div a b)
  | mod =>
      by_cases hb : b = 0
      · subst hb
        rfl
      · rw [checked_of_divides rfl hb, onIntegers, if_neg (mt hzero.mp hb), onWords, if_neg hb]
        -- A remainder always fits, but it is refused where the quotient does not.
        split
        · rename_i h
          have htmod := fits_tmod a b
          have hword : (a % b).toInt = (a.toInt.tmod b.toInt).bmod Int64.size := by
            rw [Int64.toInt_mod, bmod_of_fits htmod]
          rw [exactly_of_fits (Int64.toInt_div a b) h, exactly_of_fits hword htmod,
            bounded_of_fits h, bounded_of_fits htmod]
          rfl
        · rename_i h
          rw [bounded_of_not_fits h]
          rfl

end Integers

end Arithmetic

namespace Operator

/-! ## Operators -/

def operand (os : List Outcome) (position : Nat) : Except Trap Outcome :=
  match os[position]? with
  | some o => .ok o
  | none => .error (.operand position)

def operandsFrom (os : List Outcome) (position : Nat) : Except Trap (List Outcome) :=
  if position ≤ os.length then .ok (os.drop position) else .error (.operand position)

def compareOnMachine (op : Operator) (a b : Value) : Except Trap Outcome :=
  match op with
  | .comparison c => .ok (.ok (.boolean (c.holds a b)))
  | _ => .error (.notComparison op)

def computeOnMachine (op : Operator) (a b : Value) : Except Trap Outcome :=
  match op, a, b with
  | .arithmetic op, .int64 a, .int64 b => op.checked a b
  | .arithmetic op, a, b => .ok (op.apply a b)
  | _, _, _ => .error (.notArithmetic op)

/-- Goes on with the values of two operands, or ends with the first failure. -/
def withValues (o p : Outcome) (f : Value → Value → Except Trap Outcome) : Except Trap Outcome :=
  match o, p with
  | .ok a, .ok b => f a b
  | .error e, _ | .ok _, .error e => .ok (.error e)

def onMachine (op : Operator) (os : List Outcome) : Except Trap Outcome :=
  match op with
  | .and => .ok (.boolean <$> allTrue os)
  | .or => .ok (.boolean <$> anyTrue os)
  | .not => do
      let o ← operand os 0
      return do return .boolean (!(← (← o).truth))
  | .isNull => do
      let o ← operand os 0
      return do return .boolean (← o).isNull
  | .isNotNull => do
      let o ← operand os 0
      return do return .boolean (!(← o).isNull)
  | .member => do
      let o ← operand os 0
      let list ← operandsFrom os 1
      return do
        let v ← o
        .boolean <$> anyEqual v list
  | .comparison _ => do
      withValues (← operand os 0) (← operand os 1) op.compareOnMachine
  | .arithmetic _ => do
      withValues (← operand os 0) (← operand os 1) op.computeOnMachine

theorem withValues_eq {f : Value → Value → Except Trap Outcome} {g : Value → Value → Outcome}
    (h : ∀ a b, f a b = .ok (g a b)) (o p : Outcome) :
    withValues o p f = .ok (do g (← o) (← p)) := by
  rcases o with e | a
  · rfl
  · rcases p with e | b
    · rfl
    · exact h a b

theorem computeOnMachine_eq (op : Arithmetic) (a b : Value) :
    computeOnMachine (.arithmetic op) a b = .ok (op.apply a b) := by
  cases a <;> cases b <;> first | rfl | exact Arithmetic.checked_eq op _ _

theorem onMachine_eq (op : Operator) {os : List Outcome} (h : op.accepts os.length = true) :
    op.onMachine os = .ok (op.apply os) := by
  cases op with
  | and | or => rfl
  | member =>
      rcases os with _ | ⟨o, os⟩
      · cases h
      · simp [onMachine, apply, operand, operandsFrom, bind, Except.bind, pure, Except.pure]
  | not | isNull | isNotNull =>
      rcases os with _ | ⟨o, _ | ⟨p, os⟩⟩
      · cases h
      · rfl
      · simp [accepts, maxArity?] at h
  | comparison c =>
      rcases os with _ | ⟨o, _ | ⟨p, _ | ⟨q, os⟩⟩⟩
      · cases h
      · cases h
      · exact withValues_eq (fun _ _ => rfl) o p
      · simp [accepts, maxArity?] at h
  | arithmetic op =>
      rcases os with _ | ⟨o, _ | ⟨p, _ | ⟨q, os⟩⟩⟩
      · cases h
      · cases h
      · exact withValues_eq (computeOnMachine_eq op) o p
      · simp [accepts, maxArity?] at h

end Operator

/-! ## Terms -/

namespace Term

mutual

/-- Evaluates on the machine, all operands before the operation. -/
def onMachine (bindings : List Binding) : Term → Except Trap Outcome
  | .constant v => .ok (.ok v)
  | .field slot index => .ok do (← Binding.rowAt bindings slot).field index
  | .param slot => .ok (Binding.valueAt bindings slot)
  | .operation op args => do op.onMachine (← allOnMachine bindings args)

def allOnMachine (bindings : List Binding) : List Term → Except Trap (List Outcome)
  | [] => .ok []
  | t :: ts => do return (← t.onMachine bindings) :: (← allOnMachine bindings ts)

end

variable {sources : List Expr} {bindings : List Binding}

mutual

theorem onMachine_ofExpr : (e : Expr) → ∀ {t : Term}, ofExpr sources e = .ok t →
    t.onMachine bindings = .ok (t.eval bindings)
  | .constant v, t, h => by
      cases h
      rfl
  | .path (.root name), t, h => by
      cases h
  | .path (.field source name index), t, h => by
      obtain ⟨slot, -, rfl⟩ := ofExpr_field_eq_ok h
      rfl
  | .param name, t, h => by
      obtain ⟨slot, -, rfl⟩ := ofExpr_param_eq_ok h
      rfl
  | .operation op args, t, h => by
      obtain ⟨haccepts, ts, hargs, rfl⟩ := ofExpr_operation_eq_ok h
      rw [onMachine, allOnMachine_ofExprs args hargs, eval]
      apply op.onMachine_eq
      rwa [length_evalAll, length_ofExprs hargs]

theorem allOnMachine_ofExprs : (es : List Expr) → ∀ {ts : List Term}, ofExprs sources es = .ok ts →
    allOnMachine bindings ts = .ok (evalAll bindings ts)
  | [], ts, h => by
      cases h
      rfl
  | e :: es, ts, h => by
      obtain ⟨t, ts', he, hes, rfl⟩ := ofExprs_cons_eq_ok h
      rw [allOnMachine, onMachine_ofExpr e he, allOnMachine_ofExprs es hes]
      rfl

end

end Term

namespace Evaluator

def onMachine (bindings : List Binding) : Evaluator → Except Trap Outcome
  | .static term => term.onMachine []
  | .bound term _ => term.onMachine bindings

end Evaluator

/-- What has been compiled is never trapped, however little the bindings fit it. It comes to a value,
or to an error that speaks of operands, of a short row or of a slot. -/
theorem onMachine_of_compile {sources : List Expr} {e : Expr} {evaluator : Evaluator}
    (h : compile sources e = .ok evaluator) (bindings : List Binding) :
    evaluator.onMachine bindings = .ok (evaluator.evaluate bindings) ∧
      ∀ error, evaluator.evaluate bindings = .error error →
        Mishap sources bindings evaluator.dependencies error := by
  refine ⟨?_, evaluate_failsOnly h bindings⟩
  obtain ⟨t, hterm, ⟨-, rfl⟩ | ⟨-, rfl⟩⟩ := compile_eq_ok h
  · exact Term.onMachine_ofExpr e hterm
  · exact Term.onMachine_ofExpr e hterm

/-- No expression compiles to this term, which runs into a trap. -/
example : (Term.operation .not []).onMachine [] = .error (.operand 0) :=
  rfl

/-- Whether a number leaves a remainder, and one that is not among some others. -/
def leavesOddRemainder : Expr :=
  .operation .and
    [.operation .isNotNull [.path (.field "cat" "val" 0)],
      .operation .not
        [.memberOf
          (.operation (.arithmetic .mod) [.path (.field "cat" "val" 0), .param "x"])
          [.constant (.int64 0), .constant (.int64 2)]]]

theorem onMachine_leavesOddRemainder :
    let sources : List Expr := [.path (.root "cat"), .param "x"]
    let cat : Binding := .element ⟨1, [.int64 Int64.minValue]⟩
    ∃ evaluator, compile sources leavesOddRemainder = .ok evaluator ∧
      evaluator.onMachine [cat, .value (.int64 10)] = .ok (.ok (.boolean true)) ∧
      evaluator.onMachine [cat, .value (.int64 (-1))] =
        .ok (.error (.overflow (.arithmetic .mod))) ∧
      evaluator.onMachine [cat, .value (.int64 0)] = .ok (.error .divisionByZero) ∧
      evaluator.onMachine [cat, cat] = .ok (.error (.binding 1 .expectedValue)) ∧
      evaluator.onMachine [] = .ok (.error (.binding 0 .unbound)) ∧
      Mishap sources [] evaluator.dependencies (.binding 0 .unbound) := by
  intro sources cat
  have hcompile : compile sources leavesOddRemainder = .ok _ := rfl
  have hruns := fun bindings => (onMachine_of_compile hcompile bindings).1
  exact ⟨_, hcompile, hruns _, hruns _, hruns _, hruns _, hruns _,
    (onMachine_of_compile hcompile []).2 _ rfl⟩

end IndexedQuery
