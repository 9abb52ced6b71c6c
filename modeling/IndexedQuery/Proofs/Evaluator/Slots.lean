import IndexedQuery.Evaluator
import Mathlib.Data.List.Forall2

namespace IndexedQuery

/-- The slot of the name at a leaf of an expression. A constant has none. -/
def leafSlot? (sources : List Expr) : Expr → Option Nat
  | .path p => rootSlot? sources p.rootName
  | .param name => paramSlot? sources name
  | _ => none

def Expr.rootName? : Expr → Option String
  | .path (.root name) => some name
  | _ => none

/-- The names of the sources in scope, in the order of their slots. -/
def rootNames (sources : List Expr) : List String :=
  sources.filterMap Expr.rootName?

section Slots

variable {sources : List Expr} {name : String} {slot i : Nat}

theorem Expr.isRoot_iff {e : Expr} : e.isRoot name = true ↔ e = .path (.root name) := by
  unfold isRoot
  split <;> simp_all

theorem Expr.isParam_iff {e : Expr} : e.isParam name = true ↔ e = .param name := by
  unfold isParam
  split <;> simp_all

theorem getElem?_of_rootSlot? (h : rootSlot? sources name = some slot) :
    sources[slot]? = some (.path (.root name)) := by
  rw [rootSlot?, List.findIdx?_eq_some_iff_getElem] at h
  obtain ⟨hlt, hroot, -⟩ := h
  rw [List.getElem?_eq_getElem hlt, Expr.isRoot_iff.mp hroot]

theorem getElem?_of_paramSlot? (h : paramSlot? sources name = some slot) :
    sources[slot]? = some (.param name) := by
  rw [paramSlot?, List.findIdx?_eq_some_iff_getElem] at h
  obtain ⟨hlt, hparam, -⟩ := h
  rw [List.getElem?_eq_getElem hlt, Expr.isParam_iff.mp hparam]

theorem rootSlot?_eq_none_iff : rootSlot? sources name = none ↔ .path (.root name) ∉ sources := by
  simp only [rootSlot?, List.findIdx?_eq_none_iff, Bool.eq_false_iff, ne_eq, Expr.isRoot_iff]
  exact List.forall_mem_ne'

theorem paramSlot?_eq_none_iff : paramSlot? sources name = none ↔ .param name ∉ sources := by
  simp only [paramSlot?, List.findIdx?_eq_none_iff, Bool.eq_false_iff, ne_eq, Expr.isParam_iff]
  exact List.forall_mem_ne'

theorem lt_of_leafSlot? {leaf : Expr} (h : leafSlot? sources leaf = some slot) :
    slot < sources.length := by
  cases leaf with
  | path p => exact (List.getElem?_eq_some_iff.mp (getElem?_of_rootSlot? h)).1
  | param name => exact (List.getElem?_eq_some_iff.mp (getElem?_of_paramSlot? h)).1
  | constant v => cases h
  | operation op args => cases h

theorem rootSlot?_le (hi : sources[i]? = some (.path (.root name)))
    (h : rootSlot? sources name = some slot) : slot ≤ i := by
  rw [rootSlot?, List.findIdx?_eq_some_iff_getElem] at h
  obtain ⟨_, -, hfirst⟩ := h
  obtain ⟨hlt, hroot⟩ := List.getElem?_eq_some_iff.mp hi
  apply Nat.le_of_not_lt
  intro hearlier
  have hnot := hfirst i hearlier
  rw [hroot] at hnot
  exact hnot (beq_self_eq_true name)

theorem mem_rootNames (hi : sources[i]? = some (.path (.root name))) :
    name ∈ rootNames sources :=
  List.mem_filterMap.mpr ⟨_, List.mem_of_getElem? hi, rfl⟩

theorem eq_of_rootSlot? (distinct : (rootNames sources).Nodup)
    (hi : sources[i]? = some (.path (.root name)))
    (h : rootSlot? sources name = some slot) : slot = i := by
  apply Nat.le_antisymm (rootSlot?_le hi h)
  apply Nat.le_of_not_lt
  intro hlt
  obtain ⟨hslot, hname⟩ := List.getElem?_eq_some_iff.mp (getElem?_of_rootSlot? h)
  obtain ⟨hi, hname'⟩ := List.getElem?_eq_some_iff.mp hi
  have hdiffer := List.pairwise_iff_getElem.mp (List.pairwise_filterMap.mp distinct) slot i hslot
    hi hlt
  rw [hname, hname'] at hdiffer
  exact hdiffer name rfl name rfl rfl

end Slots

namespace Binding

variable {bindings bindings' : List Binding} {slot : Nat}

theorem rowAt_congr (h : bindings.getD slot .unbound = bindings'.getD slot .unbound) :
    rowAt bindings slot = rowAt bindings' slot := by
  rw [rowAt, rowAt, h]

theorem valueAt_congr (h : bindings.getD slot .unbound = bindings'.getD slot .unbound) :
    valueAt bindings slot = valueAt bindings' slot := by
  rw [valueAt, valueAt, h]

end Binding

namespace Term

section Congruence

variable {bindings bindings' : List Binding}

mutual

theorem eval_congr : (t : Term) →
    (∀ slot ∈ t.slots, bindings.getD slot .unbound = bindings'.getD slot .unbound) →
      t.eval bindings = t.eval bindings'
  | .constant _, _ => rfl
  | .field slot _, h => by
      rw [eval, eval, Binding.rowAt_congr (h slot (by simp [slots]))]
  | .param slot, h => by
      rw [eval, eval, Binding.valueAt_congr (h slot (by simp [slots]))]
  | .operation op args, h => by
      rw [eval, eval, evalAll_congr args (by simpa [slots] using h)]

theorem evalAll_congr : (ts : List Term) →
    (∀ slot ∈ slotsAll ts, bindings.getD slot .unbound = bindings'.getD slot .unbound) →
      evalAll bindings ts = evalAll bindings' ts
  | [], _ => rfl
  | t :: ts, h => by
      rw [evalAll, evalAll, eval_congr t fun slot hslot => h slot (by simp [slotsAll, hslot]),
        evalAll_congr ts fun slot hslot => h slot (by simp [slotsAll, hslot])]

end

end Congruence

section Resolution

variable {sources : List Expr}

theorem ofExpr_field_eq_ok {source name : String} {index : Nat} {t : Term}
    (h : ofExpr sources (.path (.field source name index)) = .ok t) :
    ∃ slot, rootSlot? sources source = some slot ∧ t = .field slot index := by
  rw [ofExpr] at h
  split at h
  · rename_i slot hslot
    cases h
    exact ⟨slot, hslot, rfl⟩
  · cases h

theorem ofExpr_param_eq_ok {name : String} {t : Term}
    (h : ofExpr sources (.param name) = .ok t) :
    ∃ slot, paramSlot? sources name = some slot ∧ t = .param slot := by
  rw [ofExpr] at h
  split at h
  · rename_i slot hslot
    cases h
    exact ⟨slot, hslot, rfl⟩
  · cases h

theorem ofExpr_operation_eq_ok {op : Operator} {args : List Expr} {t : Term}
    (h : ofExpr sources (.operation op args) = .ok t) :
    op.accepts args.length = true ∧
      ∃ ts, ofExprs sources args = .ok ts ∧ t = .operation op ts := by
  rw [ofExpr] at h
  split at h
  · rename_i haccepts
    rcases hargs : ofExprs sources args with e | ts
    · rw [hargs] at h
      cases h
    · rw [hargs] at h
      cases h
      exact ⟨haccepts, ts, rfl, rfl⟩
  · cases h

theorem ofExprs_cons_eq_ok {e : Expr} {es : List Expr} {ts : List Term}
    (h : ofExprs sources (e :: es) = .ok ts) :
    ∃ t ts', ofExpr sources e = .ok t ∧ ofExprs sources es = .ok ts' ∧ ts = t :: ts' := by
  rw [ofExprs] at h
  rcases he : ofExpr sources e with err | t
  · rw [he] at h
    cases h
  · rcases hes : ofExprs sources es with err | ts'
    · rw [he, hes] at h
      cases h
    · rw [he, hes] at h
      cases h
      exact ⟨t, ts', rfl, rfl, rfl⟩

mutual

/-- The slots of a term are those of the leaves of its expression, from left to right. -/
theorem slots_ofExpr : (e : Expr) → ∀ {t : Term}, ofExpr sources e = .ok t →
    t.slots = e.leaves.filterMap (leafSlot? sources)
  | .constant v, t, h => by
      cases h
      rfl
  | .path (.root name), t, h => by
      cases h
  | .path (.field source name index), t, h => by
      obtain ⟨slot, hslot, rfl⟩ := ofExpr_field_eq_ok h
      simp [slots, Expr.leaves, leafSlot?, Path.rootName, hslot]
  | .param name, t, h => by
      obtain ⟨slot, hslot, rfl⟩ := ofExpr_param_eq_ok h
      simp [slots, Expr.leaves, leafSlot?, hslot]
  | .operation op args, t, h => by
      obtain ⟨-, ts, hargs, rfl⟩ := ofExpr_operation_eq_ok h
      exact slotsAll_ofExprs args hargs

theorem slotsAll_ofExprs : (es : List Expr) → ∀ {ts : List Term}, ofExprs sources es = .ok ts →
    slotsAll ts = (Expr.leavesAll es).filterMap (leafSlot? sources)
  | [], ts, h => by
      cases h
      rfl
  | e :: es, ts, h => by
      obtain ⟨t, ts', he, hes, rfl⟩ := ofExprs_cons_eq_ok h
      rw [slotsAll, Expr.leavesAll, List.filterMap_append, slots_ofExpr e he,
        slotsAll_ofExprs es hes]

end

theorem mem_slots_iff {e : Expr} {t : Term} (h : ofExpr sources e = .ok t) {slot : Nat} :
    slot ∈ t.slots ↔ ∃ leaf ∈ e.leaves, leafSlot? sources leaf = some slot := by
  rw [slots_ofExpr e h, List.mem_filterMap]

end Resolution

end Term

theorem compile_eq_ok {sources : List Expr} {e : Expr} {evaluator : Evaluator}
    (h : compile sources e = .ok evaluator) :
    ∃ t, Term.ofExpr sources e = .ok t ∧
      ((t.slots = [] ∧ evaluator = .static t) ∨
        (t.slots ≠ [] ∧
          evaluator = .bound t ((List.range sources.length).filter t.slots.contains))) := by
  unfold compile at h
  rcases hterm : Term.ofExpr sources e with err | t
  · rw [hterm] at h
    cases h
  · rw [hterm] at h
    refine ⟨t, rfl, ?_⟩
    by_cases hempty : t.slots.isEmpty = true
    · refine .inl ⟨List.isEmpty_iff.mp hempty, ?_⟩
      simpa [bind, Except.bind, pure, Except.pure, hempty] using h.symm
    · refine .inr ⟨mt List.isEmpty_iff.mpr hempty, ?_⟩
      simpa [bind, Except.bind, pure, Except.pure, hempty] using h.symm

theorem evaluate_of_compile {sources : List Expr} {e : Expr} {evaluator : Evaluator}
    (h : compile sources e = .ok evaluator) :
    ∃ t, Term.ofExpr sources e = .ok t ∧
      ∀ bindings, evaluator.evaluate bindings = t.eval bindings := by
  obtain ⟨t, hterm, ⟨hempty, rfl⟩ | ⟨-, rfl⟩⟩ := compile_eq_ok h
  · refine ⟨t, hterm, fun bindings => ?_⟩
    rw [Evaluator.evaluate]
    apply Term.eval_congr
    simp [hempty]
  · exact ⟨t, hterm, fun _ => rfl⟩

theorem mem_dependencies_iff {sources : List Expr} {e : Expr} {evaluator : Evaluator}
    (h : compile sources e = .ok evaluator) {slot : Nat} :
    slot ∈ evaluator.dependencies ↔ ∃ leaf ∈ e.leaves, leafSlot? sources leaf = some slot := by
  obtain ⟨t, hterm, hevaluator⟩ := compile_eq_ok h
  rw [← Term.mem_slots_iff hterm]
  rcases hevaluator with ⟨hempty, rfl⟩ | ⟨-, rfl⟩
  · rw [hempty]
    rfl
  · rw [Evaluator.dependencies, List.mem_filter, List.mem_range, List.contains_iff_mem,
      and_iff_right_iff_imp]
    intro hslot
    obtain ⟨leaf, -, hleaf⟩ := (Term.mem_slots_iff hterm).mp hslot
    exact lt_of_leafSlot? hleaf

theorem compileAll_eq_ok {sources es : List Expr} {evaluators : List Evaluator}
    (h : compileAll sources es = .ok evaluators) :
    List.Forall₂ (fun e evaluator => compile sources e = .ok evaluator) es evaluators := by
  induction es generalizing evaluators with
  | nil =>
      cases h
      exact .nil
  | cons e es ih =>
      rw [compileAll, List.mapM_cons] at h
      rcases he : compile sources e with err | evaluator
      · rw [he] at h
        cases h
      · rcases hes : compileAll sources es with err | rest
        · rw [compileAll] at hes
          rw [he, hes] at h
          cases h
        · rw [compileAll] at hes
          rw [he, hes] at h
          cases h
          exact .cons he (ih hes)

end IndexedQuery
