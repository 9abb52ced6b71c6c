import IndexedQuery.Proofs.Evaluator.Slots

/-!
Which expressions compile. A node of an expression is at fault or not whatever stands around it, and
the fault that is reported is that of the first faulty node, where a node comes before its operands.
-/

namespace IndexedQuery

namespace Expr

mutual

/-- The expression and all those within it, each before its operands and these from left to right. -/
def nodes : Expr → List Expr
  | .operation op args => .operation op args :: nodesAll args
  | e => [e]

def nodesAll : List Expr → List Expr
  | [] => []
  | e :: es => e.nodes ++ nodesAll es

end

mutual

theorem leaves_subset_nodes : (e : Expr) → e.leaves ⊆ e.nodes
  | .path _ | .constant _ | .param _ => fun _ hleaf => hleaf
  | .operation _ args => fun _ hleaf => .tail _ (leavesAll_subset_nodesAll args hleaf)

theorem leavesAll_subset_nodesAll : (es : List Expr) → leavesAll es ⊆ nodesAll es
  | [] => fun _ hleaf => hleaf
  | e :: es => by
      intro leaf hleaf
      rcases List.mem_append.mp hleaf with hleaf | hleaf
      · exact List.mem_append_left _ (leaves_subset_nodes e hleaf)
      · exact List.mem_append_right _ (leavesAll_subset_nodesAll es hleaf)

end

/-- What is wrong with a node, its operands apart. -/
inductive Fault (sources : List Expr) : Expr → Error → Prop where
  | arity {op : Operator} {args : List Expr} (refused : op.accepts args.length = false) :
      Fault sources (.operation op args) (.arity op args.length)
  | unknownSource {source name : String} {index : Nat} (unknown : .path (.root source) ∉ sources) :
      Fault sources (.path (.field source name index)) (.unknownSource source)
  | unknownParam {name : String} (unknown : .param name ∉ sources) :
      Fault sources (.param name) (.unknownParam name)
  | notAValue {name : String} : Fault sources (.path (.root name)) (.notAValue name)

/-- The error is the fault of a node, and no node before that one is at fault. -/
def FirstFault (sources : List Expr) (e : Expr) (error : Error) : Prop :=
  ∃ before node after, e.nodes = before ++ node :: after ∧ Fault sources node error ∧
    ∀ earlier ∈ before, ∀ error, ¬ Fault sources earlier error

/-- Operators have as many operands as they accept, names are among the sources, and no source
stands for itself. -/
structure WellFormed (sources : List Expr) (e : Expr) : Prop where
  accepted : ∀ op args, .operation op args ∈ e.nodes → op.accepts args.length = true
  knownSource : ∀ source name index, .path (.field source name index) ∈ e.nodes →
    .path (.root source) ∈ sources
  knownParam : ∀ name, .param name ∈ e.nodes → .param name ∈ sources
  noRoot : ∀ name, .path (.root name) ∉ e.nodes

/-- The fault of a node, as compiling meets it. -/
def fault? (sources : List Expr) : Expr → Option Error
  | .constant _ => none
  | .path (.root name) => some (.notAValue name)
  | .path (.field source _ _) =>
      if rootSlot? sources source = none then some (.unknownSource source) else none
  | .param name => if paramSlot? sources name = none then some (.unknownParam name) else none
  | .operation op args =>
      if op.accepts args.length then none else some (.arity op args.length)

variable {sources : List Expr} {e node : Expr} {error : Error}

theorem fault?_eq_some_iff : fault? sources node = some error ↔ Fault sources node error := by
  constructor
  · intro h
    unfold fault? at h
    split at h
    · cases h
    · cases h
      exact .notAValue
    · split at h
      · rename_i hnone
        cases h
        exact .unknownSource (rootSlot?_eq_none_iff.mp hnone)
      · cases h
    · split at h
      · rename_i hnone
        cases h
        exact .unknownParam (paramSlot?_eq_none_iff.mp hnone)
      · cases h
    · split at h
      · cases h
      · rename_i hrefused
        cases h
        exact .arity (Bool.eq_false_iff.mpr hrefused)
  · rintro (⟨hrefused⟩ | ⟨hunknown⟩ | ⟨hunknown⟩ | ⟨⟩)
    · simp [fault?, hrefused]
    · rw [fault?, if_pos (rootSlot?_eq_none_iff.mpr hunknown)]
    · rw [fault?, if_pos (paramSlot?_eq_none_iff.mpr hunknown)]
    · rfl

theorem fault?_eq_none_iff : fault? sources node = none ↔ ∀ error, ¬ Fault sources node error := by
  simp only [Option.eq_none_iff_forall_ne_some, ne_eq, fault?_eq_some_iff]

theorem firstFault_iff :
    FirstFault sources e error ↔ e.nodes.findSome? (fault? sources) = some error := by
  simp only [FirstFault, List.findSome?_eq_some_iff, fault?_eq_some_iff, fault?_eq_none_iff]

theorem WellFormed.not_fault (h : WellFormed sources e) (hnode : node ∈ e.nodes) :
    ¬ Fault sources node error := by
  rintro (⟨hrefused⟩ | ⟨hunknown⟩ | ⟨hunknown⟩ | ⟨⟩)
  · simp [h.accepted _ _ hnode] at hrefused
  · exact hunknown (h.knownSource _ _ _ hnode)
  · exact hunknown (h.knownParam _ hnode)
  · exact h.noRoot _ hnode

theorem wellFormed_iff :
    WellFormed sources e ↔ ∀ node ∈ e.nodes, ∀ error, ¬ Fault sources node error := by
  constructor
  · intro h node hnode error
    exact h.not_fault hnode
  · intro h
    constructor
    · intro op args hnode
      by_contra hrefused
      exact h _ hnode _ (.arity (Bool.eq_false_iff.mpr hrefused))
    · intro source name index hnode
      by_contra hunknown
      exact h _ hnode _ (.unknownSource hunknown)
    · intro name hnode
      by_contra hunknown
      exact h _ hnode _ (.unknownParam hunknown)
    · intro name hnode
      exact h _ hnode _ .notAValue

theorem mem_nodesAll {es : List Expr} : node ∈ nodesAll es ↔ ∃ e ∈ es, node ∈ e.nodes := by
  induction es with
  | nil => simp [nodesAll]
  | cons e es ih => simp [nodesAll, ih]

theorem wellFormed_operation_iff {op : Operator} {args : List Expr} :
    WellFormed sources (.operation op args) ↔
      op.accepts args.length = true ∧ ∀ arg ∈ args, WellFormed sources arg := by
  have hnode : (∀ error, ¬ Fault sources (.operation op args) error) ↔
      op.accepts args.length = true := by
    rw [← fault?_eq_none_iff, fault?]
    split <;> simp [*]
  simp only [wellFormed_iff, nodes, List.forall_mem_cons, hnode, mem_nodesAll]
  refine and_congr_right fun _ => ?_
  constructor
  · intro h arg harg node hmem
    exact h node ⟨arg, harg, hmem⟩
  · rintro h node ⟨arg, harg, hmem⟩
    exact h arg harg node hmem

theorem wellFormed_iff_not_firstFault :
    WellFormed sources e ↔ ∀ error, ¬ FirstFault sources e error := by
  simp only [wellFormed_iff, firstFault_iff, ← fault?_eq_none_iff, ← ne_eq,
    ← Option.eq_none_iff_forall_ne_some, List.findSome?_eq_none_iff]

end Expr

namespace Term

variable {sources : List Expr}

mutual

/-- Resolving names goes through the nodes in their order and stops at the first fault. -/
theorem ofExpr_eq_error_iff : (e : Expr) → ∀ {error : Error},
    (ofExpr sources e = .error error ↔ e.nodes.findSome? (Expr.fault? sources) = some error)
  | .constant v, _ => by simp [ofExpr, Expr.nodes, Expr.fault?]
  | .path (.root name), _ => by simp [ofExpr, Expr.nodes, Expr.fault?]
  | .path (.field source name index), _ => by
      rcases h : rootSlot? sources source with _ | slot <;>
        simp [ofExpr, Expr.nodes, Expr.fault?, h]
  | .param name, _ => by
      rcases h : paramSlot? sources name with _ | slot <;>
        simp [ofExpr, Expr.nodes, Expr.fault?, h]
  | .operation op args, _ => by
      rw [ofExpr, Expr.nodes, List.findSome?_cons, Expr.fault?]
      split
      · rw [← ofExprs_eq_error_iff args]
        rcases ofExprs sources args with err | ts <;> simp [bind, Except.bind, pure, Except.pure]
      · simp

theorem ofExprs_eq_error_iff : (es : List Expr) → ∀ {error : Error},
    (ofExprs sources es = .error error ↔
      (Expr.nodesAll es).findSome? (Expr.fault? sources) = some error)
  | [], _ => by simp [ofExprs, Expr.nodesAll]
  | e :: es, _ => by
      rw [ofExprs, Expr.nodesAll, List.findSome?_append]
      rcases he : ofExpr sources e with err | t
      · rw [(ofExpr_eq_error_iff e).mp he, Option.some_or]
        simp [bind, Except.bind]
      · have hnone : e.nodes.findSome? (Expr.fault? sources) = none := by
          rw [Option.eq_none_iff_forall_ne_some]
          intro err herr
          rw [(ofExpr_eq_error_iff e).mpr herr] at he
          cases he
        rw [hnone, Option.none_or, ← ofExprs_eq_error_iff es]
        rcases ofExprs sources es with err | ts <;> simp [bind, Except.bind, pure, Except.pure]

end

end Term

section Compiling

variable {sources : List Expr} {e : Expr}

theorem compile_eq_error_iff {error : Error} :
    compile sources e = .error error ↔ e.FirstFault sources error := by
  rw [Expr.firstFault_iff, ← Term.ofExpr_eq_error_iff]
  unfold compile
  rcases Term.ofExpr sources e with err | t
  · simp [bind, Except.bind]
  · simp only [bind, Except.bind]
    split <;> simp [pure, Except.pure]

theorem exists_compile_iff :
    (∃ evaluator, compile sources e = .ok evaluator) ↔ e.WellFormed sources := by
  rw [Expr.wellFormed_iff_not_firstFault]
  simp only [← compile_eq_error_iff]
  rcases compile sources e with error | evaluator <;> simp

end Compiling

/-- What is well-formed compiles, and of anything else the first fault is reported. -/
theorem compile_decides_wellFormed (sources : List Expr) (e : Expr) :
    ((∃ evaluator, compile sources e = .ok evaluator) ↔ e.WellFormed sources) ∧
      ∀ error, compile sources e = .error error ↔ e.FirstFault sources error :=
  ⟨exists_compile_iff, fun _ => compile_eq_error_iff⟩

/-- The negation has too many operands, which is found before the first of them is looked at. -/
example :
    compile [.path (.root "cat"), .path (.field "dog" "name" 0)]
        (.operation .and
          [.path (.field "cat" "name" 0),
            .operation .not [.path (.root "cat"), .path (.field "dog" "name" 0)], .param "x"]) =
      .error (.arity .not 2) :=
  rfl

end IndexedQuery
