import IndexedQuery.Proofs.Context.History
import IndexedQuery.Proofs.Runner.Lockstep
import IndexedQuery.Proofs.Source.Faults

namespace IndexedQuery.ContextTree

variable {σ : Type}

inductive Action where
  | use (number : Nat) (u : Use)
  /-- A runner over a context is asked; the first `roots` sources in scope are its roots. -/
  | ask (number roots params : Nat) (args : List Value) (q : Query)

/-- The tree after an action, with success or without. There is nothing to act on where no context
has the number. -/
def act (t : ContextTree σ) : Action → ContextTree σ
  | .use number u => t.step number u
  | .ask number roots params args q =>
      match t.contexts[number]? with
      | some c => (t.run (Runner.ask ⟨c, roots, params⟩ args q)).2
      | none => t

def afterAll (t : ContextTree σ) (actions : List Action) : ContextTree σ :=
  actions.foldl act t

variable {scope : Scope σ} {rows : String → List Row} {t : ContextTree σ}

section Upholds

variable {P : Session σ → Prop} (hP : Session.Persistent scope.source P)

include hP

theorem Upholds.act (ht : t.Upholds scope P) (a : Action) : (t.act a).Upholds scope P := by
  cases a with
  | use number u => exact ht.step hP number u
  | ask number roots params args q =>
      simp only [ContextTree.act]
      split
      · rename_i c hc
        have hscope := ht.scope_eq c (List.mem_of_getElem? hc)
        apply ht.run
        rw [keeps_iff_lockstep]
        apply Runner.ask_lockstep
        rw [hscope]
        exact hP.bisimulation
      · exact ht

theorem Upholds.afterAll (ht : t.Upholds scope P) (actions : List Action) :
    (t.afterAll actions).Upholds scope P := by
  induction actions generalizing t with
  | nil => exact ht
  | cons a actions ih => exact ih (ht.act hP a)

end Upholds

/-- In every state that a tree comes to, the cache holds groupings of whole collections by fields,
each counted once. They stay for good, and a build that fails adds nothing. -/
theorem cache_afterAll {start : σ} (honest : scope.source.Honest rows start)
    (actions later : List Action) :
    let t := (ofScope scope start).afterAll actions
    let cache := t.session.cache
    (∀ entry ∈ cache.entries, ∃ collection name k,
      entry.1 = .field collection name k ∧ entry.2.GroupsBy k (rows collection)) ∧
    cache.builds = cache.size ∧ cache.paths.Nodup ∧
    (∀ path index, cache.get? path = some index →
      (t.afterAll later).session.cache.get? path = some index) ∧
    (∀ h path e t', t.buildIndex h path = (.error e, t') → t'.session.cache = cache) := by
  intro t cache
  have hintact : t.Upholds scope (Session.Intact scope.source rows) :=
    (Upholds.ofScope ⟨honest, Cache.sound_empty⟩).afterAll (Session.intact_persistent _ _) actions
  have htallied : t.Upholds scope fun s => s.cache.Tallied :=
    (Upholds.ofScope Cache.tallied_empty).afterAll (Session.tallied_persistent _) actions
  refine ⟨?_, htallied.session.builds_eq, htallied.session.nodup, ?_, ?_⟩
  · intro entry hentry
    exact hintact.session.sound.groupsBy hentry
  · intro path index hkept
    have hkeeps : t.Upholds scope fun s => s.cache.get? path = some index :=
      ⟨hintact.scope_eq, hkept⟩
    exact (hkeeps.afterAll (Session.kept_persistent _ path index) later).session
  · intro h path e t' hbuild
    have hanswer : (t.contexts[h].buildIndex path t.session).1 = .error e :=
      congrArg Prod.fst hbuild
    have hcache := Context.cache_of_buildIndex_error hanswer
    have hsession : (t.contexts[h].buildIndex path t.session).2 = t'.session :=
      congrArg (fun r => r.2.session) hbuild
    rwa [hsession] at hcache

/-- The second cat cannot be read in the first pass. -/
def unreadableCat : Fault :=
  ⟨"cat", some 1, "unreadable", some 1⟩

def flakyScope : Scope (List Fault) :=
  ⟨cats.faultySource, [.path (.root "cat"), .param "x"], .standard, .standard⟩

def catsWithKey : Query :=
  .count ⟨some (.operation (.comparison .eq)
    [.path (.field "cat" "val" 1), .param "x"]), []⟩

def countCats : Action :=
  .ask 0 1 1 [.int64 1] catsWithKey

theorem cache_countCats :
    let t := (ofScope flakyScope [unreadableCat]).afterAll [countCats]
    t.session.passed = ["cat"] ∧ t.session.cache.paths = [] ∧
      ∃ index, (t.act countCats).session.cache.entries = [(.field "cat" "val" 1, index)] ∧
        index.GroupsBy 1 (cats.rowsOf "cat") := by
  refine ⟨rfl, rfl, .byField 1 (cats.rowsOf "cat"), rfl, ?_⟩
  have honest : flakyScope.source.Honest cats.rowsOf [unreadableCat] := by
    rw [← Collections.rowsIn_rows]
    exact (cats.faultySource_discloses [unreadableCat]).honest
  obtain ⟨collection, name, k, hpath, hgroups⟩ :=
    (cache_afterAll honest [countCats, countCats] []).1 _ (.head [])
  cases hpath
  exact hgroups

end IndexedQuery.ContextTree
