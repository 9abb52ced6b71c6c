import IndexedQuery.Proofs.Context.Building
import IndexedQuery.Proofs.Session.Lockstep

/-!
What contexts do to a session: they report, pass over collections and keep the indexes that passes
led to, and nothing else. A property that outlasts these three outlasts everything, and sessions
that are alike to these are alike to everything.
-/

namespace IndexedQuery

variable {σ : Type}

namespace Session

structure Persistent (source : Source σ) (P : Session σ → Prop) : Prop where
  log : ∀ {s}, P s → ∀ log, P { s with log }
  afterPass : ∀ {s}, P s → ∀ name, P (s.afterPass source name)
  keeping : ∀ {s} {collection name : String} {k : Nat} {index : Index Value Row}, P s →
    s.cache.get? (.field collection name k) = none →
      (Path.field collection name k).indexOf k (source.pass s.source collection).1 = .ok index →
        P ((s.afterPass source collection).keeping (.field collection name k) index)

/-- Related sessions stay related and show no difference when a context over the source reports,
reads a collection or asks for an index. -/
structure Bisimulation (source : Source σ) (R : Session σ → Session σ → Prop) : Prop where
  report : ∀ e, Lockstep R (Run.report e)
  read : ∀ name, Lockstep R (Run.read source name)
  buildIndex : ∀ c : Context σ, c.scope.source = source → ∀ path, Lockstep R (c.buildIndex path)
  indexFor : ∀ c : Context σ, c.scope.source = source → ∀ path, Lockstep R (c.indexFor path)

variable {source : Source σ} {P Q : Session σ → Prop}

namespace Persistent

theorem trivial (source : Source σ) : Persistent source fun _ => True :=
  ⟨fun _ _ => .intro, fun _ _ => .intro, fun _ _ _ => .intro⟩

theorem report (hP : Persistent source P) (e : Event) : Keeps P (Run.report e : Run σ Unit) :=
  fun _ hs => hP.log hs _

theorem read (hP : Persistent source P) (name : String) : Keeps P (Run.read source name) :=
  fun _ hs => hP.afterPass hs name

end Persistent

end Session

namespace Context

variable {c : Context σ} {s : Session σ} {P : Session σ → Prop}

theorem buildIndex_keeps (hP : Session.Persistent c.scope.source P) (path : Path) :
    Keeps P (c.buildIndex path) := by
  intro s hs
  rcases hkept : s.cache.get? path with _ | index
  · cases path with
    | root name =>
        rw [buildIndex_root hkept]
        exact hs
    | field collection name k =>
        rw [buildIndex_field hkept]
        rcases hindex : (Path.field collection name k).indexOf k
            (c.scope.source.pass s.source collection).1 with e | index
        · exact hP.afterPass hs collection
        · exact hP.keeping hs hkept hindex
  · rw [buildIndex_of_kept hkept]
    exact hP.log hs _

theorem indexFor_of_kept {path : Path} {index : Index Value Row}
    (h : s.cache.get? path = some index) : c.indexFor path s = (.ok (.ok index), s) := by
  unfold indexFor
  rw [Run.bind_cache, h]
  rfl

theorem indexFor_of_absent {path : Path} (h : s.cache.get? path = none) :
    c.indexFor path s = Run.orKeyError (c.buildIndex path) s := by
  unfold indexFor
  rw [Run.bind_cache, h]

theorem indexFor_fst (path : Path) :
    (c.indexFor path s).1 = (Run.orKeyError (c.buildIndex path) s).1 := by
  rcases hkept : s.cache.get? path with _ | index
  · rw [indexFor_of_absent hkept]
  · rw [indexFor_of_kept hkept, Run.orKeyError_of_ok (buildIndex_of_kept hkept)]

theorem indexFor_keeps (hP : Session.Persistent c.scope.source P) (path : Path) :
    Keeps P (c.indexFor path) := by
  intro s hs
  rcases hkept : s.cache.get? path with _ | index
  · rw [indexFor_of_absent hkept]
    exact Run.orKeyError_keeps (buildIndex_keeps hP path) s hs
  · rw [indexFor_of_kept hkept]
    exact hs

theorem cache_of_buildIndex_error {path : Path} {e : Error}
    (h : (c.buildIndex path s).1 = .error e) : (c.buildIndex path s).2.cache = s.cache := by
  rcases hkept : s.cache.get? path with _ | index
  · cases path with
    | root name => rw [buildIndex_root hkept]
    | field collection name k =>
        rw [buildIndex_field hkept] at h ⊢
        rcases hindex : (Path.field collection name k).indexOf k
            (c.scope.source.pass s.source collection).1 with e' | index
        · rfl
        · rw [hindex] at h
          cases h
  · rw [buildIndex_of_kept hkept] at h
    cases h

theorem get?_of_buildIndex {s' : Session σ} {path : Path} {index : Index Value Row}
    (h : c.buildIndex path s = (.ok index, s')) : s'.cache.get? path = some index := by
  rcases hkept : s.cache.get? path with _ | kept
  · cases path with
    | root name =>
        rw [buildIndex_root hkept] at h
        cases h
    | field collection name k =>
        rw [buildIndex_field hkept] at h
        rcases hindex : (Path.field collection name k).indexOf k
            (c.scope.source.pass s.source collection).1 with e | built
        · rw [hindex] at h
          cases h
        · rw [hindex] at h
          cases h
          have hself := Cache.get?_keep_self s.cache (.field collection name k) index
          rw [congrArg Prod.fst (Cache.keep_of_absent hkept)] at hself
          exact hself
  · rw [buildIndex_of_kept hkept] at h
    cases h
    exact hkept

end Context

namespace Session

variable {source : Source σ} {P : Session σ → Prop}

theorem Persistent.bisimulation (hP : Persistent source P) :
    Bisimulation source fun s s' => s = s' ∧ P s where
  report e := keeps_iff_lockstep.mp (hP.report e)
  read name := keeps_iff_lockstep.mp (hP.read name)
  buildIndex c hc path := by
    subst hc
    exact keeps_iff_lockstep.mp (Context.buildIndex_keeps hP path)
  indexFor c hc path := by
    subst hc
    exact keeps_iff_lockstep.mp (Context.indexFor_keeps hP path)

/-- Where the passes and the indexes are the same in all sessions with a property, these sessions
are alike. -/
theorem Persistent.bisimulation_of_answers (hP : Persistent source P)
    (hpass : ∀ name s s', P s → P s' →
      (source.pass s.source name).1 = (source.pass s'.source name).1)
    (hindex : ∀ c : Context σ, c.scope.source = source → ∀ path s s', P s → P s' →
      (c.buildIndex path s).1 = (c.buildIndex path s').1) :
    Bisimulation source fun s s' => P s ∧ P s' where
  report e := (hP.report e).lockstep fun _ _ _ _ => rfl
  read name := (hP.read name).lockstep (hpass name)
  buildIndex c hc path := by
    subst hc
    exact (Context.buildIndex_keeps hP path).lockstep (hindex c rfl path)
  indexFor c hc path := by
    subst hc
    apply (Context.indexFor_keeps hP path).lockstep
    intro s s' hs hs'
    have hbuild := (Context.buildIndex_keeps hP path).lockstep (hindex c rfl path)
    rw [Context.indexFor_fst, Context.indexFor_fst]
    exact (Run.orKeyError_lockstep hbuild s s' ⟨hs, hs'⟩).1

end Session

end IndexedQuery
