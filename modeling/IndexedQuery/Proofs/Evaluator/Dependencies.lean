import IndexedQuery.Proofs.Evaluator.Readiness
import Mathlib.Data.List.Destutter
import Mathlib.Data.List.Sort

namespace IndexedQuery

variable {sources : List Expr} {bindings : List Binding}

/-- What can go wrong with an evaluation that looks at the given slots. -/
inductive Mishap (sources : List Expr) (bindings : List Binding) (slots : List Nat) :
    Error → Prop where
  | operational {e : Error} (operational : e.isOperational = true) : Mishap sources bindings slots e
  | short {index length : Nat} : Mishap sources bindings slots (.fieldOutOfRange index length)
  | slot {slot : Nat} {source : Expr} {fault : SlotFault} (looked : slot ∈ slots)
      (source_eq : sources[slot]? = some source)
      (unsuited : (bindings.getD slot .unbound).suits source = false) :
      Mishap sources bindings slots (.binding slot fault)

namespace Term

theorem length_ofExprs {es : List Expr} {ts : List Term} (h : ofExprs sources es = .ok ts) :
    ts.length = es.length := by
  induction es generalizing ts with
  | nil =>
      cases h
      rfl
  | cons e es ih =>
      obtain ⟨t, ts', -, hes, rfl⟩ := ofExprs_cons_eq_ok h
      rw [List.length_cons, List.length_cons, ih hes]

theorem length_evalAll (bindings : List Binding) (ts : List Term) :
    (evalAll bindings ts).length = ts.length := by
  induction ts with
  | nil => rfl
  | cons t ts ih => simp [evalAll, ih]

mutual

theorem eval_failsOnly : (e : Expr) → ∀ {t : Term} {slots : List Nat},
    ofExpr sources e = .ok t → t.slots ⊆ slots →
      FailsOnly (Mishap sources bindings slots) (t.eval bindings)
  | .constant v, t, slots, h, _ => by
      cases h
      exact .ok v
  | .path (.root name), t, slots, h, _ => by
      cases h
  | .path (.field source name index), t, slots, h, hslots => by
      obtain ⟨slot, hslot, rfl⟩ := ofExpr_field_eq_ok h
      have hrow : FailsOnly (Mishap sources bindings slots) (Binding.rowAt bindings slot) :=
        Binding.rowAt_failsOnly fun hunsuited _ =>
          .slot (hslots (.head [])) (getElem?_of_rootSlot? hslot) hunsuited
      exact hrow.bind fun row _ => row.field_failsOnly (fun _ _ => .short) index
  | .param name, t, slots, h, hslots => by
      obtain ⟨slot, hslot, rfl⟩ := ofExpr_param_eq_ok h
      exact Binding.valueAt_failsOnly fun hunsuited _ =>
        .slot (hslots (.head [])) (getElem?_of_paramSlot? hslot) hunsuited
  | .operation op args, t, slots, h, hslots => by
      obtain ⟨haccepts, ts, hargs, rfl⟩ := ofExpr_operation_eq_ok h
      rw [eval]
      refine op.apply_failsOnly (fun _ h => .operational h) ?_ (evalAll_failsOnly args hargs hslots)
      intro hrefused
      rw [length_evalAll, length_ofExprs hargs, haccepts] at hrefused
      cases hrefused

theorem evalAll_failsOnly : (es : List Expr) → ∀ {ts : List Term} {slots : List Nat},
    ofExprs sources es = .ok ts → slotsAll ts ⊆ slots →
      ∀ o ∈ evalAll bindings ts, FailsOnly (Mishap sources bindings slots) o
  | [], ts, slots, h, _ => by
      cases h
      simp [evalAll]
  | e :: es, ts, slots, h, hslots => by
      obtain ⟨t, ts', he, hes, rfl⟩ := ofExprs_cons_eq_ok h
      rw [slotsAll, List.append_subset] at hslots
      rw [evalAll]
      exact List.forall_mem_cons.mpr
        ⟨eval_failsOnly e he hslots.1, evalAll_failsOnly es hes hslots.2⟩

end

end Term

section Compiled

variable {e : Expr} {evaluator : Evaluator}

theorem slots_subset_dependencies {t : Term} (h : compile sources e = .ok evaluator)
    (hterm : Term.ofExpr sources e = .ok t) : t.slots ⊆ evaluator.dependencies := fun _ hslot =>
  (mem_dependencies_iff h).mpr ((Term.mem_slots_iff hterm).mp hslot)

theorem pairwise_dependencies (h : compile sources e = .ok evaluator) :
    evaluator.dependencies.Pairwise (· < ·) := by
  obtain ⟨t, -, ⟨-, rfl⟩ | ⟨-, rfl⟩⟩ := compile_eq_ok h
  · exact .nil
  · exact List.pairwise_lt_range.filter _

theorem mem_destutter'_ne {slot first : Nat} {slots : List Nat} :
    slot ∈ slots.destutter' (· ≠ ·) first ↔ slot = first ∨ slot ∈ slots := by
  induction slots generalizing first with
  | nil => simp
  | cons next slots ih =>
      by_cases hnext : first = next
      · subst hnext
        rw [List.destutter'_cons_neg _ (not_not_intro rfl), ih]
        simp
      · rw [List.destutter'_cons_pos _ hnext, List.mem_cons, ih, List.mem_cons]

theorem mem_destutter_ne {slot : Nat} {slots : List Nat} :
    slot ∈ slots.destutter (· ≠ ·) ↔ slot ∈ slots := by
  cases slots with
  | nil => rfl
  | cons first slots => rw [List.destutter_cons', mem_destutter'_ne, List.mem_cons]

theorem pairwise_lt_destutter {slots : List Nat} (h : slots.Pairwise (· ≤ ·)) :
    (slots.destutter (· ≠ ·)).Pairwise (· < ·) := by
  have hsorted := (h.sublist (slots.destutter_sublist (· ≠ ·))).isChain
  have hdiffer := slots.isChain_destutter (· ≠ ·)
  rw [List.isChain_iff_getElem] at hsorted hdiffer
  apply List.IsChain.pairwise
  rw [List.isChain_iff_getElem]
  intro i hi
  exact Nat.lt_of_le_of_ne (hsorted i hi) (hdiffer i hi)

/-- The dependencies are the slots in the order of the names, once sorted and rid of repetitions. -/
theorem dependencies_eq_destutter (h : compile sources e = .ok evaluator) :
    evaluator.dependencies =
      ((e.leaves.filterMap (leafSlot? sources)).mergeSort (· ≤ ·)).destutter (· ≠ ·) := by
  apply (pairwise_dependencies h).eq_of_mem_iff
  · exact pairwise_lt_destutter (List.pairwise_mergeSort' (· ≤ ·) _)
  · intro slot
    rw [mem_dependencies_iff h, mem_destutter_ne, List.mem_mergeSort, List.mem_filterMap]

theorem exists_rootSlot_of_compile (h : compile sources e = .ok evaluator) {p : Path}
    (hleaf : .path p ∈ e.leaves) : ∃ slot, rootSlot? sources p.rootName = some slot := by
  have hformed : e.WellFormed sources := exists_compile_iff.mp ⟨evaluator, h⟩
  have hnode := Expr.leaves_subset_nodes e hleaf
  rw [← Option.ne_none_iff_exists', ne_eq, rootSlot?_eq_none_iff, not_not]
  cases p with
  | root name => exact absurd hnode (hformed.noRoot name)
  | field source name index => exact hformed.knownSource source name index hnode

theorem exists_paramSlot_of_compile (h : compile sources e = .ok evaluator) {name : String}
    (hleaf : .param name ∈ e.leaves) : ∃ slot, paramSlot? sources name = some slot := by
  have hformed : e.WellFormed sources := exists_compile_iff.mp ⟨evaluator, h⟩
  rw [← Option.ne_none_iff_exists', ne_eq, paramSlot?_eq_none_iff, not_not]
  exact hformed.knownParam name (Expr.leaves_subset_nodes e hleaf)

theorem isStatic_iff (h : compile sources e = .ok evaluator) :
    evaluator.isStatic = true ↔
      (∀ p, .path p ∉ e.leaves) ∧ ∀ name, .param name ∉ e.leaves := by
  obtain ⟨t, hterm, hevaluator⟩ := compile_eq_ok h
  have hstatic : evaluator.isStatic = true ↔ t.slots = [] := by
    rcases hevaluator with ⟨hempty, rfl⟩ | ⟨hnonempty, rfl⟩
    · exact iff_of_true rfl hempty
    · exact iff_of_false (by simp [Evaluator.isStatic]) hnonempty
  rw [hstatic, Term.slots_ofExpr e hterm, List.filterMap_eq_nil_iff]
  constructor
  · intro hnone
    constructor
    · intro p hleaf
      obtain ⟨slot, hslot⟩ := exists_rootSlot_of_compile h hleaf
      exact Option.some_ne_none slot (hslot.symm.trans (hnone _ hleaf))
    · intro name hleaf
      obtain ⟨slot, hslot⟩ := exists_paramSlot_of_compile h hleaf
      exact Option.some_ne_none slot (hslot.symm.trans (hnone _ hleaf))
  · rintro ⟨hpath, hparam⟩ leaf hleaf
    cases leaf with
    | path p => exact absurd hleaf (hpath p)
    | param name => exact absurd hleaf (hparam name)
    | constant v => rfl
    | operation op args => rfl

theorem evaluate_congr (h : compile sources e = .ok evaluator) {bindings bindings' : List Binding}
    (hagree : ∀ slot ∈ evaluator.dependencies,
      bindings.getD slot .unbound = bindings'.getD slot .unbound) :
    evaluator.evaluate bindings = evaluator.evaluate bindings' := by
  obtain ⟨t, hterm, heval⟩ := evaluate_of_compile h
  rw [heval, heval]
  exact t.eval_congr fun slot hslot => hagree slot (slots_subset_dependencies h hterm hslot)

theorem evaluate_failsOnly (h : compile sources e = .ok evaluator) (bindings : List Binding) :
    FailsOnly (Mishap sources bindings evaluator.dependencies) (evaluator.evaluate bindings) := by
  obtain ⟨t, hterm, heval⟩ := evaluate_of_compile h
  rw [heval]
  exact Term.eval_failsOnly e hterm (slots_subset_dependencies h hterm)

end Compiled

/-- An evaluator declares the slots of the names in its expression, in ascending order, and looks at
no others. It cannot fail for the bindings as long as those slots are bound as their sources
require, and if it does fail for a binding, it is for that of one of those slots. -/
theorem dependencies_of_compile {sources : List Expr} {e : Expr} {evaluator : Evaluator}
    (h : compile sources e = .ok evaluator) :
    (evaluator.dependencies.Pairwise (· < ·) ∧
      ∀ slot, slot ∈ evaluator.dependencies ↔ ∃ leaf ∈ e.leaves, leafSlot? sources leaf = some slot) ∧
    (evaluator.isStatic = true ↔
      (∀ p, .path p ∉ e.leaves) ∧ ∀ name, .param name ∉ e.leaves) ∧
    (∀ bindings bindings' : List Binding,
      (∀ slot ∈ evaluator.dependencies,
        bindings.getD slot .unbound = bindings'.getD slot .unbound) →
      evaluator.evaluate bindings = evaluator.evaluate bindings') ∧
    ∀ bindings : List Binding,
      ((∀ slot ∈ evaluator.dependencies, ∃ source, sources[slot]? = some source ∧
          (bindings.getD slot .unbound).suits source = true) →
        ∀ slot fault, evaluator.evaluate bindings ≠ .error (.binding slot fault)) ∧
      ∀ slot fault, evaluator.evaluate bindings = .error (.binding slot fault) →
        slot ∈ evaluator.dependencies := by
  refine ⟨⟨pairwise_dependencies h, fun _ => mem_dependencies_iff h⟩, isStatic_iff h,
    fun _ _ => evaluate_congr h, fun bindings => ⟨?_, ?_⟩⟩
  · intro hsuited slot fault hfailure
    rcases evaluate_failsOnly h bindings _ hfailure with ⟨⟨⟩⟩ | _ | ⟨hmem, hsource, hunsuited⟩
    obtain ⟨source, hsource', hsuits⟩ := hsuited slot hmem
    rw [hsource] at hsource'
    cases hsource'
    rw [hsuits] at hunsuited
    cases hunsuited
  · intro slot fault hfailure
    rcases evaluate_failsOnly h bindings _ hfailure with ⟨⟨⟩⟩ | _ | ⟨hmem, -, -⟩
    exact hmem

/-- A kitten that has the value sought, with an older cat beside it. -/
def kittenSought : Expr :=
  .operation .and
    [.operation (.comparison .eq) [.path (.field "kitten" "val" 0), .param "x"],
      .operation (.comparison .lt) [.param "x", .path (.field "cat" "val" 0)]]

theorem dependencies_kittenSought :
    let sources : List Expr :=
      [.path (.root "cat"), .param "x", .path (.root "dog"), .path (.root "kitten"), .param "x"]
    let bindings : List Binding :=
      [.element ⟨1, [.int64 5]⟩, .value (.int64 2), .unbound, .element ⟨3, [.int64 2]⟩]
    let others : List Binding :=
      [.element ⟨1, [.int64 5]⟩, .value (.int64 2), .value .null, .element ⟨3, [.int64 2]⟩, .unbound,
        .value .null]
    ∃ evaluator, compile sources kittenSought = .ok evaluator ∧
      evaluator.dependencies = [0, 1, 3] ∧ evaluator.isStatic = false ∧
      evaluator.evaluate bindings = evaluator.evaluate others ∧
      evaluator.evaluate bindings = .ok (.boolean true) ∧
      (∀ slot fault, evaluator.evaluate bindings ≠ .error (.binding slot fault)) ∧
      evaluator.evaluate (bindings.take 2) = .error (.binding 3 .unbound) ∧
      3 ∈ evaluator.dependencies := by
  intro sources bindings others
  have hcompile : compile sources kittenSought = .ok _ := rfl
  obtain ⟨-, -, hcongr, hblame⟩ := dependencies_of_compile hcompile
  refine ⟨_, hcompile, rfl, rfl, hcongr bindings others ?_, rfl, (hblame bindings).1 ?_, rfl,
    (hblame (bindings.take 2)).2 3 .unbound rfl⟩
  · intro slot hslot
    have hthree : slot ∈ [0, 1, 3] := hslot
    simp only [List.mem_cons, List.not_mem_nil, or_false] at hthree
    rcases hthree with rfl | rfl | rfl <;> rfl
  · intro slot hslot
    have hthree : slot ∈ [0, 1, 3] := hslot
    simp only [List.mem_cons, List.not_mem_nil, or_false] at hthree
    rcases hthree with rfl | rfl | rfl <;> exact ⟨_, rfl, rfl⟩

end IndexedQuery
