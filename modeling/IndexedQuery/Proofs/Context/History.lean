import IndexedQuery.Context.Tree
import IndexedQuery.Proofs.Context.Specialization

/-!
Context trees with a history. Whatever was done with the contexts of a tree, and however often the
source failed meanwhile, an indexed lookup gives what a scan would leave after filtering by the
key.
-/

namespace IndexedQuery.ContextTree

variable {σ α : Type}

inductive Use where
  | specialize (condition? : Option Expr)
  | discover (condition : Expr)
  | register (queried : Expr) (r : Registration)
  | buildIndex (path : Path)
  | resolve (e : Expr)
  | resolveUnder (e : Expr) (bindings : List Binding)
  | scan (e : Expr)

/-- The tree after one of its contexts was used, with success or without. -/
def use (t : ContextTree σ) (h : t.Handle) : Use → ContextTree σ
  | .specialize condition? => (t.specialize h condition?).2
  | .discover condition => (t.discover h condition).2
  | .register queried r => (t.extend h (.register queried r)).2
  | .buildIndex path => (t.buildIndex h path).2
  | .resolve e => (t.resolve h e).2
  | .resolveUnder e bindings => (t.resolveUnder h e bindings).2
  | .scan e => (t.scan h e).2

def step (t : ContextTree σ) (number : Nat) (u : Use) : ContextTree σ :=
  if h : number < t.contexts.length then t.use ⟨number, h⟩ u else t

def after (t : ContextTree σ) (history : List (Nat × Use)) : ContextTree σ :=
  history.foldl (fun t (number, u) => t.step number u) t

theorem apply_of_run {t t' : ContextTree σ} {act : Run σ α} {answer : Except Error α}
    (h : t.run act = (answer, t')) : act t.session = (answer, t'.session) := by
  have hanswer := congrArg Prod.fst h
  have hsession := congrArg (fun r => r.2.session) h
  exact Prod.ext hanswer hsession

theorem extend_of_run {t : ContextTree σ} {h : t.Handle} {act : Extension σ α} {x : Except Error α}
    {c' : Context σ} {s' : Session σ} (hrun : act (t.contexts.get h, t.session) = (x, c', s')) :
    t.extend h act = (x, ⟨t.contexts.set h c', s'⟩) := by
  rw [List.get_eq_getElem] at hrun
  simp only [extend, Extension.on, Fin.getElem_fin, hrun]

section Specialize

variable {t : ContextTree σ} {h : t.Handle} {condition : Expr} {s' : Session σ}

theorem specialize_of_ok {child : Context σ}
    (hrun : (t.contexts.get h).specialize (some condition) t.session = (.ok child, s')) :
    t.specialize h (some condition) = (.ok t.contexts.length, ⟨t.contexts ++ [child], s'⟩) := by
  rw [List.get_eq_getElem] at hrun
  simp only [specialize, Fin.getElem_fin, hrun, Option.isNone_some, Bool.false_eq_true, if_false]

theorem specialize_of_error {e : Error}
    (hrun : (t.contexts.get h).specialize (some condition) t.session = (.error e, s')) :
    t.specialize h (some condition) = (.error e, ⟨t.contexts, s'⟩) := by
  rw [List.get_eq_getElem] at hrun
  simp only [specialize, Fin.getElem_fin, hrun, Option.isNone_some, Bool.false_eq_true, if_false]

end Specialize

/-- All contexts share the scope, and the session has a property. -/
structure Upholds (scope : Scope σ) (P : Session σ → Prop) (t : ContextTree σ) : Prop where
  scope_eq : ∀ c ∈ t.contexts, c.scope = scope
  session : P t.session

/-- All contexts share the scope, and the session is intact. -/
structure Intact (scope : Scope σ) (rows : String → List Row) (t : ContextTree σ) : Prop where
  scope_eq : ∀ c ∈ t.contexts, c.scope = scope
  session : t.session.Intact scope.source rows

variable {scope : Scope σ} {rows : String → List Row} {t : ContextTree σ}

namespace Upholds

variable {P : Session σ → Prop}

theorem ofScope {start : σ} (h : P (.start start)) : (ofScope scope start).Upholds scope P where
  scope_eq c hc := by
    rw [List.mem_singleton.mp hc]
    rfl
  session := h

theorem scope_handle (ht : t.Upholds scope P) (h : t.Handle) :
    (t.contexts.get h).scope = scope :=
  ht.scope_eq _ (List.get_mem t.contexts h)

theorem run (ht : t.Upholds scope P) {act : Run σ α} (hact : Keeps P act) :
    (t.run act).2.Upholds scope P :=
  ⟨ht.scope_eq, hact t.session ht.session⟩

theorem extend (ht : t.Upholds scope P) (h : t.Handle) {act : Extension σ α}
    (hact : Lockstep (Extension.Related scope fun s s' => s = s' ∧ P s) act) :
    (t.extend h act).2.Upholds scope P := by
  obtain ⟨-, -, hscope, -, hsession⟩ := hact (t.contexts[h], t.session) (t.contexts[h], t.session)
    ⟨rfl, ht.scope_handle h, rfl, ht.session⟩
  refine ⟨?_, hsession⟩
  intro c hc
  rcases List.mem_or_eq_of_mem_set hc with hc | rfl
  · exact ht.scope_eq c hc
  · exact hscope

theorem specialize_of_keeps (ht : t.Upholds scope P) (h : t.Handle) (condition? : Option Expr)
    (hact : Keeps P ((t.contexts.get h).specialize condition?)) :
    (t.specialize h condition?).2.Upholds scope P := by
  cases condition? with
  | none => exact ht
  | some condition =>
      have hkeeps : P (t.contexts[h].specialize (some condition) t.session).2 :=
        hact t.session ht.session
      rcases hrun : t.contexts[h].specialize (some condition) t.session with ⟨e | child, s'⟩
      · rw [hrun] at hkeeps
        rw [specialize_of_error hrun]
        exact ⟨ht.scope_eq, hkeeps⟩
      · rw [hrun] at hkeeps
        rw [specialize_of_ok hrun]
        have hchild : child.scope = t.contexts[h].scope :=
          Context.scope_of_specialize (by rw [hrun])
        have hscope := hchild.trans (ht.scope_handle h)
        exact ⟨List.forall_mem_append.mpr ⟨ht.scope_eq, by simpa using hscope⟩, hkeeps⟩

variable (hP : Session.Persistent scope.source P)

include hP

theorem specialize (ht : t.Upholds scope P) (h : t.Handle) (condition? : Option Expr) :
    (t.specialize h condition?).2.Upholds scope P := by
  apply ht.specialize_of_keeps
  rw [keeps_iff_lockstep]
  apply Context.specialize_lockstep
  rw [ht.scope_handle h]
  exact hP.bisimulation

theorem use (ht : t.Upholds scope P) (h : t.Handle) (u : Use) :
    (t.use h u).Upholds scope P := by
  have hscope : t.contexts[h].scope = scope := ht.scope_handle h
  have hR := hP.bisimulation
  cases u with
  | specialize condition? => exact ht.specialize hP h condition?
  | discover condition => exact ht.extend h (Extension.discover_lockstep hR condition)
  | register queried r => exact ht.extend h (Extension.register_lockstep_of (fun e _ => hR.report e) queried r)
  | buildIndex path =>
      subst scope
      exact ht.run (t.contexts[h].buildIndex_keeps hP path)
  | resolve e =>
      subst scope
      exact ht.run (keeps_iff_lockstep.mpr (t.contexts[h].resolve_lockstep hR e))
  | resolveUnder e bindings =>
      subst scope
      exact ht.run (keeps_iff_lockstep.mpr (t.contexts[h].resolveUnder_lockstep hR e bindings))
  | scan e =>
      subst scope
      exact ht.run (keeps_iff_lockstep.mpr (t.contexts[h].scope.scan_lockstep hR e))

theorem step (ht : t.Upholds scope P) (number : Nat) (u : Use) :
    (t.step number u).Upholds scope P := by
  rw [ContextTree.step]
  split
  · exact ht.use hP _ u
  · exact ht

theorem after (ht : t.Upholds scope P) (history : List (Nat × Use)) :
    (t.after history).Upholds scope P := by
  induction history generalizing t with
  | nil => exact ht
  | cons entry history ih => exact ih (ht.step hP entry.1 entry.2)

end Upholds

namespace Intact

theorem ofScope {start : σ} (honest : scope.source.Honest rows start) :
    (ofScope scope start).Intact scope rows :=
  have h := Upholds.ofScope (P := Session.Intact scope.source rows) ⟨honest, Cache.sound_empty⟩
  ⟨h.scope_eq, h.session⟩

theorem scope_handle (ht : t.Intact scope rows) (h : t.Handle) :
    (t.contexts.get h).scope = scope :=
  ht.scope_eq _ (List.get_mem t.contexts h)

theorem after (ht : t.Intact scope rows) (history : List (Nat × Use)) :
    (t.after history).Intact scope rows :=
  have h := Upholds.after (Session.intact_persistent scope.source rows) ⟨ht.scope_eq, ht.session⟩
    history
  ⟨h.scope_eq, h.session⟩

end Intact

/-- An indexed lookup equals the scan that is filtered by the key, after any history. Where the key
or the index is not to be had, it equals the plain scan, which for lack of an index comes after
the pass of the failed build. The last part says when a complete pass leads to an index. -/
theorem resolveUnder_eq_filter {start : σ} (honest : scope.source.Honest rows start)
    (history : List (Nat × Use)) (h : ((ofScope scope start).after history).Handle)
    {queried : Expr} {collection name : String} {k : Nat} {key : Evaluator}
    (registered : ((ofScope scope start).after history).contexts[h].registration? queried =
      some ⟨.field collection name k, key⟩)
    (bindings : List Binding) :
    let t := (ofScope scope start).after history
    let path := Path.field collection name k
    (∀ v, key.evaluate bindings = .ok v →
      (t.session.cache.contains path = true ∨ ∃ index, (t.buildIndex h path).1 = .ok index) →
        (t.resolveUnder h queried bindings).1 =
          .ok (.ofRows ((rows collection).filter (·.hasAt k v)))) ∧
    (∀ e, key.evaluate bindings = .error e →
      (t.resolveUnder h queried bindings).1 = (t.scan h queried).1) ∧
    (∀ v text cause t', key.evaluate bindings = .ok v →
      t.buildIndex h path = (.error (.indexKey text cause), t') →
        (t.resolveUnder h queried bindings).1 = (scope.scan queried t'.session).1) ∧
    ((scope.source.pass t.session.source collection).1 = .ok ((rows collection).map .ok) →
      ((∀ row ∈ rows collection, k < row.values.length) →
        ∃ index, (t.buildIndex h path).1 = .ok index) ∧
      (t.session.cache.contains path = false →
        (∃ row ∈ rows collection, row.values.length ≤ k) →
          ∃ row ∈ rows collection, row.values.length ≤ k ∧ (t.buildIndex h path).1 =
            .error (.indexKey path.text (.fieldOutOfRange k row.values.length)))) := by
  intro t path
  have ht : t.Intact scope rows := (Intact.ofScope honest).after history
  have hscope : t.contexts[h].scope = scope := ht.scope_handle h
  have hs : t.session.Intact t.contexts[h].scope.source rows := by
    rw [hscope]
    exact ht.session
  refine ⟨?_, ?_, ?_, ?_⟩
  · intro v hkey hindex
    have hbuild : ∃ index, (t.contexts[h].buildIndex path t.session).1 = .ok index := by
      rcases hindex with hkept | hbuild
      · obtain ⟨index, hget⟩ := Option.isSome_iff_exists.mp hkept
        rw [Context.buildIndex_of_kept hget]
        exact ⟨index, rfl⟩
      · exact hbuild
    obtain ⟨index, hbuild⟩ := hbuild
    exact Context.resolveUnder_of_index hs registered hkey hbuild
  · intro e hkey
    exact Context.resolveUnder_of_key_error registered hkey
  · intro v text cause t' hkey hbuild
    have hrun : t.contexts[h].buildIndex path t.session =
        (.error (.indexKey text cause), t'.session) := by
      have h1 := congrArg Prod.fst hbuild
      have h2 := congrArg (fun r => r.2.session) hbuild
      exact Prod.ext h1 h2
    rw [← hscope]
    exact Context.resolveUnder_of_unindexable registered hkey hrun
  · intro hpass
    rw [← hscope] at hpass
    constructor
    · intro hall
      exact Context.buildIndex_of_complete hpass (Row.allHave_iff.mpr hall)
    · intro habsent hshort
      have hget : t.session.cache.get? path = none := by
        simpa [Cache.contains] using habsent
      have hall : Row.allHave k (rows collection) = false := by
        simpa [Row.allHave] using hshort
      obtain ⟨row, hrow, hlt, hbuild⟩ := Context.buildIndex_of_short hget hpass hall
      exact ⟨row, hrow, hlt, congrArg Prod.fst hbuild⟩

def cats : Collections :=
  .ofList
    [("cat", [⟨1, [.string "a", .int64 1]⟩, ⟨2, [.string "b", .int64 1]⟩,
      ⟨3, [.string "c", .int64 2]⟩])]

def catScope : Scope Unit :=
  ⟨cats.source, [.path (.root "cat"), .param "x"], .standard, .standard⟩

theorem resolveUnder_cats :
    (((ofScope catScope ()).after
        [(0, .specialize (some (.operation (.comparison .eq)
          [.path (.field "cat" "val" 1), .param "x"])))]).resolveUnder ⟨1, by decide⟩
      (.path (.root "cat")) [.unbound, .value (.int64 1)]).1 =
      .ok (.ofRows [⟨1, [.string "a", .int64 1]⟩, ⟨2, [.string "b", .int64 1]⟩]) := by
  let history : List (Nat × Use) := [(0, .specialize (some (.operation (.comparison .eq)
    [.path (.field "cat" "val" 1), .param "x"])))]
  have honest : catScope.source.Honest cats.rowsOf () := cats.source_honest
  have registered : ((ofScope catScope ()).after history).contexts[1].registration?
      (.path (.root "cat")) = some ⟨.field "cat" "val" 1, .bound (.param 1) [1]⟩ := rfl
  have hlookup := (resolveUnder_eq_filter honest history ⟨1, by decide⟩ registered
    [.unbound, .value (.int64 1)]).1 (.int64 1) rfl (.inl rfl)
  exact hlookup

end IndexedQuery.ContextTree
