import IndexedQuery.Proofs.Evaluator.Acceptance
import IndexedQuery.Proofs.Evaluator.Causes

namespace IndexedQuery

/-- Errors that speak of slots, of keys or of what is a source. They are answers to whoever works
with contexts and evaluators directly. -/
def Error.isInternal : Error → Bool
  | .binding .. | .missingBindings _ | .notASource _ | .indexKey .. => true
  | _ => false

/-- The failure, if it is one, is no internal error. -/
def Outward {α : Type} (x : Except Error α) : Prop :=
  ∀ e, x = .error e → e.isInternal = false

namespace Outward

variable {α β : Type}

theorem ok (a : α) : Outward (.ok a : Except Error α) :=
  FailsOnly.ok a

theorem error {e : Error} (h : e.isInternal = false) : Outward (.error e : Except Error α) :=
  FailsOnly.error h

theorem bind {x : Except Error α} {f : α → Except Error β} (hx : Outward x)
    (hf : ∀ a, x = .ok a → Outward (f a)) : Outward (x >>= f) :=
  FailsOnly.bind hx hf

theorem map {x : Except Error α} (f : α → β) (hx : Outward x) : Outward (f <$> x) :=
  FailsOnly.map f hx

theorem mapM {f : α → Except Error β} {xs : List α} (hf : ∀ x ∈ xs, Outward (f x)) :
    Outward (xs.mapM f) := by
  induction xs with
  | nil => exact .ok []
  | cons x xs ih =>
      rw [List.mapM_cons]
      have hrest := ih fun y hy => hf y (.tail x hy)
      exact (hf x (.head xs)).bind fun first _ => hrest.bind fun rest _ => .ok (first :: rest)

end Outward

theorem Error.isInternal_of_isOperational (e : Error) (h : e.isOperational = true) :
    e.isInternal = false := by
  cases e <;> first | rfl | cases h

theorem truth_outward (v : Value) : Outward v.truth :=
  truth_failsOnly Error.isInternal_of_isOperational v

theorem Operator.apply_outward (op : Operator) {os : List Outcome} (h : ∀ o ∈ os, Outward o) :
    Outward (op.apply os) :=
  op.apply_failsOnly Error.isInternal_of_isOperational (fun _ => rfl) h

namespace Binding

def isElement : Binding → Bool
  | .element _ => true
  | _ => false

def isValue : Binding → Bool
  | .value _ => true
  | _ => false

/-- Whether the binding is of the kind that the name at a leaf stands for. -/
def suits : Expr → Binding → Bool
  | .path _, b => b.isElement
  | .param _, b => b.isValue
  | _, _ => false

variable {bindings : List Binding} {slot : Nat} {E : Error → Prop}

theorem rowAt_failsOnly
    (h : (bindings.getD slot .unbound).isElement = false → ∀ fault, E (.binding slot fault)) :
    FailsOnly E (rowAt bindings slot) := by
  unfold rowAt
  split
  · exact .ok _
  · rename_i v hv
    exact .error (h (by rw [hv]; rfl) _)
  · rename_i hunbound
    exact .error (h (by rw [hunbound]; rfl) _)

theorem valueAt_failsOnly
    (h : (bindings.getD slot .unbound).isValue = false → ∀ fault, E (.binding slot fault)) :
    FailsOnly E (valueAt bindings slot) := by
  unfold valueAt
  split
  · exact .ok _
  · rename_i row hrow
    exact .error (h (by rw [hrow]; rfl) _)
  · rename_i hunbound
    exact .error (h (by rw [hunbound]; rfl) _)

theorem rowAt_outward (h : (bindings.getD slot .unbound).isElement = true) :
    Outward (rowAt bindings slot) :=
  rowAt_failsOnly fun hnot => absurd h (Bool.eq_false_iff.mp hnot)

theorem valueAt_outward (h : (bindings.getD slot .unbound).isValue = true) :
    Outward (valueAt bindings slot) :=
  valueAt_failsOnly fun hnot => absurd h (Bool.eq_false_iff.mp hnot)

end Binding

theorem Row.field_failsOnly {E : Error → Prop} (h : ∀ index length, E (.fieldOutOfRange index length))
    (row : Row) (index : Nat) : FailsOnly E (row.field index) := by
  unfold field
  split
  · exact .ok _
  · exact .error (h _ _)

theorem Row.field_outward (row : Row) (index : Nat) : Outward (row.field index) :=
  row.field_failsOnly (fun _ _ => rfl) index

namespace Term

mutual

/-- Whether all slots that the term reads are bound, those of fields to rows and those of parameters
to values. -/
def isReady (bindings : List Binding) : Term → Bool
  | .constant _ => true
  | .field slot _ => (bindings.getD slot .unbound).isElement
  | .param slot => (bindings.getD slot .unbound).isValue
  | .operation _ args => areReady bindings args

def areReady (bindings : List Binding) : List Term → Bool
  | [] => true
  | t :: ts => t.isReady bindings && areReady bindings ts

end

variable {sources : List Expr} {bindings : List Binding}

mutual

theorem eval_outward : (t : Term) → t.isReady bindings = true → Outward (t.eval bindings)
  | .constant v, _ => .ok v
  | .field _ index, h => (Binding.rowAt_outward h).bind fun row _ => row.field_outward index
  | .param _, h => Binding.valueAt_outward h
  | .operation op args, h => by
      rw [eval]
      exact op.apply_outward (evalAll_outward args h)

theorem evalAll_outward : (ts : List Term) → areReady bindings ts = true →
    ∀ o ∈ evalAll bindings ts, Outward o
  | [], _ => by simp [evalAll]
  | t :: ts, h => by
      rw [areReady, Bool.and_eq_true] at h
      rw [evalAll]
      exact List.forall_mem_cons.mpr ⟨eval_outward t h.1, evalAll_outward ts h.2⟩

end

mutual

/-- A term is ready if each leaf of its expression finds in its slot what it stands for. -/
theorem isReady_ofExpr : (e : Expr) → ∀ {t : Term}, ofExpr sources e = .ok t →
    (∀ leaf ∈ e.leaves, ∀ slot, leafSlot? sources leaf = some slot →
      (bindings.getD slot .unbound).suits leaf = true) → t.isReady bindings = true
  | .constant v, t, h, _ => by
      cases h
      rfl
  | .path (.root name), t, h, _ => by
      cases h
  | .path (.field source name index), t, h, hleaves => by
      obtain ⟨slot, hslot, rfl⟩ := ofExpr_field_eq_ok h
      exact hleaves _ (.head []) slot hslot
  | .param name, t, h, hleaves => by
      obtain ⟨slot, hslot, rfl⟩ := ofExpr_param_eq_ok h
      exact hleaves _ (.head []) slot hslot
  | .operation op args, t, h, hleaves => by
      obtain ⟨-, ts, hargs, rfl⟩ := ofExpr_operation_eq_ok h
      exact areReady_ofExprs args hargs hleaves

theorem areReady_ofExprs : (es : List Expr) → ∀ {ts : List Term}, ofExprs sources es = .ok ts →
    (∀ leaf ∈ Expr.leavesAll es, ∀ slot, leafSlot? sources leaf = some slot →
      (bindings.getD slot .unbound).suits leaf = true) → areReady bindings ts = true
  | [], ts, h, _ => by
      cases h
      rfl
  | e :: es, ts, h, hleaves => by
      obtain ⟨t, ts', he, hes, rfl⟩ := ofExprs_cons_eq_ok h
      rw [areReady, Bool.and_eq_true]
      constructor
      · exact isReady_ofExpr e he fun leaf hleaf => hleaves leaf (List.mem_append_left _ hleaf)
      · exact areReady_ofExprs es hes fun leaf hleaf => hleaves leaf (List.mem_append_right _ hleaf)

end

end Term

namespace Evaluator

/-- Whether the bindings that the evaluator looks at are as it needs them. -/
def isReady (bindings : List Binding) : Evaluator → Bool
  | .static term => term.isReady []
  | .bound term _ => term.isReady bindings

variable {evaluator : Evaluator} {bindings : List Binding}

theorem evaluate_outward (h : evaluator.isReady bindings = true) :
    Outward (evaluator.evaluate bindings) := by
  cases evaluator with
  | static term => exact term.eval_outward h
  | bound term dependencies => exact term.eval_outward h

theorem isReady_of_compile {sources : List Expr} {e : Expr}
    (h : compile sources e = .ok evaluator)
    (hleaves : ∀ leaf ∈ e.leaves, ∀ slot, leafSlot? sources leaf = some slot →
      (bindings.getD slot .unbound).suits leaf = true) : evaluator.isReady bindings = true := by
  obtain ⟨t, hterm, ⟨hempty, rfl⟩ | ⟨-, rfl⟩⟩ := compile_eq_ok h
  · apply Term.isReady_ofExpr e hterm
    -- No leaf has a slot, or it would be among those of the term.
    intro leaf hleaf slot hslot
    have hmem : slot ∈ t.slots := (Term.mem_slots_iff hterm).mpr ⟨leaf, hleaf, hslot⟩
    rw [hempty] at hmem
    cases hmem
  · exact Term.isReady_ofExpr e hterm hleaves

end Evaluator

section Compiling

variable {sources : List Expr}

theorem compile_outward (e : Expr) : Outward (compile sources e) := by
  intro error herror
  obtain ⟨_, _, _, -, hfault, -⟩ := compile_eq_error_iff.mp herror
  cases hfault <;> rfl

theorem compile?_outward (e? : Option Expr) : Outward (compile? sources e?) := by
  cases e? with
  | none => exact .ok none
  | some e => exact (compile_outward e).map some

theorem compileAll_outward (es : List Expr) : Outward (compileAll sources es) :=
  .mapM fun e _ => compile_outward e

end Compiling

end IndexedQuery
