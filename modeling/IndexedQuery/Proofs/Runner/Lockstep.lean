import IndexedQuery.Proofs.Runner.Answer

namespace IndexedQuery

variable {σ α β : Type} {R : Session σ → Session σ → Prop}

namespace Loop

theorem bind_lockstep {act : Loop σ α} {f : α → Loop σ β} {bindings : List Binding}
    (hact : Lockstep R (act bindings)) (hf : ∀ a bindings, Lockstep R (f a bindings)) :
    Lockstep R ((act >>= f) bindings) :=
  Lockstep.bind hact fun (a, bindings) => hf a bindings

theorem lift_lockstep (x : Except Error α) (bindings : List Binding) :
    Lockstep R ((liftM x : Loop σ α) bindings) := by
  intro s s' hs
  rcases x with e | a
  · exact ⟨rfl, hs⟩
  · exact ⟨rfl, hs⟩

theorem run_lockstep {act : Run σ α} (h : Lockstep R act) (bindings : List Binding) :
    Lockstep R ((liftM act : Loop σ α) bindings) :=
  Lockstep.bind h fun a => .pure (a, bindings)

theorem mapM_lockstep {f : β → Loop σ α} (hf : ∀ x bindings, Lockstep R (f x bindings))
    (xs : List β) (bindings : List Binding) : Lockstep R (xs.mapM f bindings) := by
  induction xs generalizing bindings with
  | nil => exact .pure ([], bindings)
  | cons x xs ih =>
      rw [List.mapM_cons]
      refine bind_lockstep (hf x bindings) fun first after => ?_
      exact bind_lockstep (ih after) fun rest after => .pure (first :: rest, after)

end Loop

theorem iterate_lockstep {resolve : Expr → List Binding → Run σ Elements} {sources : List Expr}
    (hresolve : ∀ source ∈ sources, ∀ bindings, Lockstep R (resolve source bindings))
    (leaf : List Binding → Except Error (List α)) (slot : Nat) (bindings : List Binding) :
    Lockstep R (iterate resolve leaf slot sources bindings) := by
  induction sources generalizing slot bindings with
  | nil => exact Loop.lift_lockstep (leaf bindings) bindings
  | cons source sources ih =>
      have hinner := fun inner hinner => hresolve inner (List.mem_cons_of_mem source hinner)
      have hround : ∀ (item : Except Error Row) (bindings : List Binding),
          Lockstep R ((do
            let row ← item
            modify (·.set slot (.element row))
            iterate resolve leaf (slot + 1) sources : Loop σ (List α)) bindings) := by
        intro item bindings
        exact Loop.bind_lockstep (Loop.lift_lockstep item bindings) fun row bindings =>
          ih hinner (slot + 1) (bindings.set slot (.element row))
      refine Loop.bind_lockstep (.pure (bindings, bindings)) fun bound bindings => ?_
      refine Loop.bind_lockstep (Loop.run_lockstep (hresolve source (.head sources) bound) bindings)
        fun elements bindings => ?_
      refine Loop.bind_lockstep (Loop.mapM_lockstep hround elements.toPass bindings)
        fun found after => ?_
      exact .pure (found.flatten, after.set slot .unbound)

namespace Runner

variable {r : Runner σ}

section Parts

variable {condition? : Option Expr}
  (hspecialize : Lockstep R (r.context.specialize condition?))
  (hresolve : ∀ s s' c, R s s' → (r.context.specialize condition? s).1 = .ok c →
    ∀ source ∈ c.scope.sources.take r.roots, ∀ bindings, Lockstep R (c.resolveUnder source bindings))
  (hreport : ∀ indexed roots, Lockstep R (Run.report (.executed indexed roots)))

include hspecialize hresolve hreport

/-- All that a query does to a session is to specialize the context, to resolve its roots in the
new one, and to report. -/
theorem execute_lockstep_of (args : List Value) (emit : List Binding → Except Error α) :
    Lockstep R (r.execute condition? args emit) := by
  unfold execute
  split
  · exact .throw _
  · refine hspecialize.bind_of_answer fun s s' c hs hc => ?_
    refine (Run.lift_lockstep _).bind fun compiled? => ?_
    refine (iterate_lockstep (hresolve s s' c hs hc) _ 0 _).bind fun (found, _) => ?_
    exact (hreport _ _).bind fun _ => .pure found

theorem ask_lockstep_of (args : List Value) {q : Query} (hq : q.condition? = condition?) :
    Lockstep R (r.ask args q) := by
  have hexecute := fun {α : Type} (emit : List Binding → Except Error α) =>
    execute_lockstep_of hspecialize hresolve hreport args emit
  subst hq
  cases q with
  | list plan =>
      refine Lockstep.map Answer.tuples ?_
      exact (Run.lift_lockstep _).bind fun projection => hexecute _
  | count plan =>
      refine Lockstep.map Answer.number ?_
      exact (hexecute _).bind fun marks => .pure marks.length
  | elements condition? =>
      refine Lockstep.map Answer.rows ?_
      unfold elements
      split
      · exact .throw _
      · exact (hexecute _).bind fun heads => .pure heads.reduceOption

end Parts

theorem ask_lockstep (hR : Session.Bisimulation r.context.scope.source R) (args : List Value)
    (q : Query) : Lockstep R (r.ask args q) := by
  refine ask_lockstep_of (Context.specialize_lockstep hR q.condition?) ?_
    (fun _ _ => hR.report _) args rfl
  intro s s' c _ hc source _ bindings
  rw [← Context.scope_of_specialize hc] at hR
  exact Context.resolveUnder_lockstep hR source bindings

end Runner

end IndexedQuery
