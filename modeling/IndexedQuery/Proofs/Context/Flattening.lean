import IndexedQuery.Proofs.Context.Walk
import IndexedQuery.Proofs.Expr.Flattening
import IndexedQuery.Proofs.Session.Abreast

namespace IndexedQuery

variable {σ : Type}

namespace Expr

variable {registry : Registry}

theorem equalitiesAll_append (xs ys : List Expr) :
    equalitiesAll registry (xs ++ ys) = equalitiesAll registry xs ++ equalitiesAll registry ys := by
  induction xs with
  | nil => rfl
  | cons x xs ih => simp only [List.cons_append, equalitiesAll, ih, List.append_assoc]

theorem equalities_and (h : registry.isConjunction .and = true) (args : List Expr) :
    (Expr.operation .and args).equalities registry = equalitiesAll registry args := by
  rw [equalities, if_pos h]

theorem Flattens.equalities_eq {e e' : Expr} (h : e.Flattens e')
    (hand : registry.isConjunction .and = true) :
    e.equalities registry = e'.equalities registry := by
  induction h with
  | here pre post nonempty =>
      simp only [equalities_and hand, equalitiesAll_append, equalitiesAll, List.append_assoc]
  | inside pre post _ ih =>
      simp only [equalities_and hand, equalitiesAll_append, equalitiesAll, ih]

theorem Flattens.discover_eq {e e' : Expr} (h : e.Flattens e') {c : Context σ}
    (hand : c.scope.registry.isConjunction .and = true) (s : Session σ) :
    Extension.discover e (c, s) = Extension.discover e' (c, s) := by
  rw [Extension.discover_eq_pinAll, Extension.discover_eq_pinAll, h.equalities_eq hand]

end Expr

namespace Session

/-- The sessions differ in their reports at most. -/
structure SameWork (s s' : Session σ) : Prop where
  source_eq : s.source = s'.source
  cache_eq : s.cache = s'.cache
  passes_eq : s.passes = s'.passes

theorem SameWork.exists_log {s s' : Session σ} (h : s.SameWork s') :
    ∃ log, s' = { s with log } := by
  obtain ⟨source, cache, passes, log⟩ := s
  obtain ⟨source', cache', passes', log'⟩ := s'
  obtain ⟨rfl, rfl, rfl⟩ := h
  exact ⟨log', rfl⟩

end Session

theorem Context.buildIndex_sameWork (c : Context σ) (path : Path) :
    Lockstep Session.SameWork (c.buildIndex path) := by
  intro s s' hs
  obtain ⟨log, rfl⟩ := hs.exists_log
  rcases hkept : s.cache.get? path with _ | index
  · have hkept' : { s with log }.cache.get? path = none := hkept
    cases path with
    | root name =>
        rw [buildIndex_root hkept, buildIndex_root hkept']
        exact ⟨rfl, hs⟩
    | field collection name k =>
        rw [buildIndex_field hkept, buildIndex_field hkept']
        dsimp only
        split
        · exact ⟨rfl, rfl, rfl, rfl⟩
        · exact ⟨rfl, rfl, rfl, rfl⟩
  · have hkept' : { s with log }.cache.get? path = some index := hkept
    rw [buildIndex_of_kept hkept, buildIndex_of_kept hkept']
    exact ⟨rfl, rfl, rfl, rfl⟩

namespace Session

/-- Nothing that contexts do depends on what was reported. -/
theorem sameWork_bisimulation (source : Source σ) : Bisimulation source SameWork where
  report e := by
    rintro s s' hs
    exact ⟨rfl, hs.source_eq, hs.cache_eq, hs.passes_eq⟩
  read name := by
    intro s s' hs
    obtain ⟨log, rfl⟩ := hs.exists_log
    exact ⟨rfl, rfl, rfl, rfl⟩
  buildIndex c _ path := c.buildIndex_sameWork path
  indexFor c _ path := by
    intro s s' hs
    obtain ⟨log, rfl⟩ := hs.exists_log
    rcases hkept : s.cache.get? path with _ | index
    · have hkept' : { s with log }.cache.get? path = none := hkept
      rw [Context.indexFor_of_absent hkept, Context.indexFor_of_absent hkept']
      exact Run.orKeyError_lockstep (c.buildIndex_sameWork path) s _ hs
    · have hkept' : { s with log }.cache.get? path = some index := hkept
      rw [Context.indexFor_of_kept hkept, Context.indexFor_of_kept hkept']
      exact ⟨rfl, hs⟩

end Session

theorem Expr.Flattens.isOperation {e e' : Expr} (h : e.Flattens e') :
    e.isOperation = true ∧ e'.isOperation = true := by
  cases h <;> exact ⟨rfl, rfl⟩

theorem Expr.Flattens.specialize_abreast {e e' : Expr} (h : e.Flattens e') {c : Context σ}
    (hand : c.scope.registry.isConjunction .and = true) :
    Abreast Session.SameWork Eq (c.specialize (some e)) (c.specialize (some e')) := by
  have hR := Session.sameWork_bisimulation c.scope.source
  have hon : (Extension.discover e).on (.ofScope c.scope) =
      (Extension.discover e').on (.ofScope c.scope) := by
    funext s
    simp only [Extension.on, h.discover_eq (c := .ofScope c.scope) hand s]
  obtain ⟨hop, hop'⟩ := h.isOperation
  simp only [Context.specialize, hop, hop', Bool.and_true, hon]
  split
  · have hdiscover := Extension.on_lockstep (Extension.discover_lockstep hR e')
      (c := .ofScope c.scope) rfl
    refine hdiscover.abreast.bind fun answered _ hsame => ?_
    cases hsame
    obtain ⟨answer, child⟩ := answered
    refine (Run.lift_lockstep answer).abreast.bind fun n _ hn => ?_
    cases hn
    refine Abreast.bind (A := Eq) ?_ fun _ _ _ => .pure rfl
    intro s s' hs
    exact ⟨.ok rfl, hs.source_eq, hs.cache_eq, hs.passes_eq⟩
  · exact .pure rfl

end IndexedQuery
