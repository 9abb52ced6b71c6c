import IndexedQuery.Proofs.Context.Walk
import IndexedQuery.Proofs.Expr.Digest
import IndexedQuery.Proofs.Runner.Pruning
import IndexedQuery.Proofs.Session.Accrual

/-!
The contexts of a tree share what is kept, and nothing else. Registrations are each context's own:
they are added and stay, also when what adds them is aborted, and no other context gets them.
-/

namespace IndexedQuery

variable {σ α : Type}

namespace Extension

theorem discover_keepsFor {e : Expr} {c c' : Context σ} {s s' : Session σ} {x : Except Error Nat}
    (h : discover e (c, s) = (x, c', s')) :
    ∃ added, c.Gains added c' ∧ s.KeepsFor c.scope.source added s' ∧
      (∀ n, x = .ok n → n = added.length) ∧
      ∀ cause, x = .error cause →
        Aborts (e.equalities c.scope.registry) c s cause added.length c' s' :=
  pinAll_gains ((discover_eq_pinAll e c s).symm.trans h)

theorem discover_gains (e : Expr) (c : Context σ) (s : Session σ) :
    ∃ added, c.Gains added (discover e (c, s)).2.1 := by
  rcases hrun : discover e (c, s) with ⟨x, c', s'⟩
  obtain ⟨added, hgains, -⟩ := discover_keepsFor hrun
  exact ⟨added, hgains⟩

theorem register_apply (queried : Expr) (r : Registration) (c : Context σ) (s : Session σ) :
    ∃ c' s', register queried r (c, s) = (.ok (!c.isIndexed queried), c', s') ∧
      c.Gains (if c.isIndexed queried then [] else [(queried, r)]) c' ∧
      s'.cache = s.cache ∧
      c'.registration? queried = some ((c.registration? queried).getD r) := by
  rcases hnew : c.isIndexed queried with _ | _
  · rw [register_of_new r hnew]
    refine ⟨c.adding [(queried, r)], _, rfl, .single hnew r, rfl, ?_⟩
    have hadding := c.registration?_adding [(queried, r)] queried
    rw [Context.registration?_eq_none.mpr hnew, Option.none_or] at hadding
    rw [Context.registration?_eq_none.mpr hnew]
    simpa using hadding
  · rw [register_of_registered r hnew]
    obtain ⟨kept, hkept⟩ := Option.isSome_iff_exists.mp hnew
    exact ⟨_, _, rfl, .nothing c, rfl, by simp [hkept]⟩

end Extension

namespace ContextTree

variable {t t' t'' : ContextTree σ}

/-- Every context is there under its number still, with some registrations added at most. -/
def Grows (t t' : ContextTree σ) : Prop :=
  ∀ (number : Nat) (c : Context σ), t.contexts[number]? = some c →
    ∃ c' added, t'.contexts[number]? = some c' ∧ c.Gains added c'

namespace Grows

theorem of_contexts_eq (h : t'.contexts = t.contexts) : t.Grows t' :=
  fun _ c hc => ⟨c, [], h ▸ hc, .nothing c⟩

theorem trans (h : t.Grows t') (h' : t'.Grows t'') : t.Grows t'' := by
  intro number c hc
  obtain ⟨c', added, hc', hgains⟩ := h number c hc
  obtain ⟨c'', more, hc'', hmore⟩ := h' number c' hc'
  exact ⟨c'', added ++ more, hc'', hgains.trans hmore⟩

theorem extend (h : t.Handle) {act : Extension σ α}
    (hact : ∀ (c : Context σ) s, ∃ added, c.Gains added (act (c, s)).2.1) : t.Grows (t.extend h act).2 := by
  intro number c hc
  rcases hrun : act (t.contexts[h], t.session) with ⟨x, c', s'⟩
  obtain ⟨added, hgains⟩ := hact t.contexts[h] t.session
  rw [hrun] at hgains
  rw [extend_of_run hrun]
  by_cases hnumber : h.val = number
  · subst hnumber
    have hsame : t.contexts[h] = c := by
      simpa using hc
    rw [hsame] at hgains
    exact ⟨c', added, by simp, hgains⟩
  · refine ⟨c, [], ?_, .nothing c⟩
    rw [List.getElem?_set_ne hnumber]
    exact hc

theorem specialize (h : t.Handle) (condition? : Option Expr) :
    t.Grows (t.specialize h condition?).2 := by
  cases condition? with
  | none => exact of_contexts_eq rfl
  | some condition =>
      rcases hrun : t.contexts[h].specialize (some condition) t.session with ⟨e | child, s'⟩
      · rw [specialize_of_error hrun]
        exact of_contexts_eq rfl
      · rw [specialize_of_ok hrun]
        intro number c hc
        refine ⟨c, [], ?_, .nothing c⟩
        rw [List.getElem?_append_left (List.getElem?_eq_some_iff.mp hc).1]
        exact hc

theorem use (h : t.Handle) (u : Use) : t.Grows (t.use h u) := by
  cases u with
  | specialize condition? => exact specialize h condition?
  | discover condition => exact extend h (Extension.discover_gains condition)
  | register queried r => exact extend h (Extension.register_gains queried r)
  | buildIndex path => exact of_contexts_eq rfl
  | resolve e => exact of_contexts_eq rfl
  | resolveUnder e bindings => exact of_contexts_eq rfl
  | scan e => exact of_contexts_eq rfl

theorem act (t : ContextTree σ) (a : Action) : t.Grows (t.act a) := by
  cases a with
  | use number u =>
      simp only [ContextTree.act, ContextTree.step]
      split
      · exact use _ u
      · exact of_contexts_eq rfl
  | ask number roots params args q =>
      simp only [ContextTree.act]
      split
      · exact of_contexts_eq rfl
      · exact of_contexts_eq rfl

theorem afterAll (t : ContextTree σ) (actions : List Action) : t.Grows (t.afterAll actions) := by
  induction actions generalizing t with
  | nil => exact of_contexts_eq rfl
  | cons a actions ih => exact (act t a).trans (ih (t.act a))

end Grows

section Specialize

variable {h : t.Handle} {condition : Expr}

theorem buildIndex_of_keepsFor {source : Source σ} {made : List (Expr × Registration)}
    (hkeeps : t.session.KeepsFor source made t'.session) {path : Path}
    (hpath : t.session.cache.contains path = true ∨
      ∃ registered ∈ made, registered.2.path = path) (h' : t'.Handle) :
    ∃ index t'', t'.buildIndex h' path = (.ok index, t'') ∧
      t''.session.cache = t'.session.cache ∧ t''.session.passes = t'.session.passes := by
  have hcontains : t'.session.cache.contains path = true := by
    rcases hpath with hpath | ⟨registered, hregistered, rfl⟩
    · exact hkeeps.contains_mono hpath
    · exact hkeeps.contains registered hregistered
  obtain ⟨index, hkept⟩ := Option.isSome_iff_exists.mp hcontains
  have hreused := t'.contexts[h'].buildIndex_of_kept hkept
  refine ⟨index,
    { t' with session := { t'.session with log := .reusedIndex path :: t'.session.log } },
    ?_, rfl, rfl⟩
  simp only [buildIndex, run, hreused]

theorem specialize_succeeds {number : Nat}
    (hspecialize : t.specialize h (some condition) = (.ok number, t')) :
    let c := t.contexts.get h
    let searched := c.scope.config.enabled && condition.isOperation
    number = t.contexts.length ∧ ∃ child, t'.contexts = t.contexts ++ [child] ∧
      child.scope = c.scope ∧
      (searched = false → child = .ofScope c.scope ∧ t'.session = t.session) ∧
      (searched = true → ∃ n s', t'.session.cache = s'.cache ∧
        Extension.discover condition (.ofScope c.scope, t.session) = (.ok n, child, s')) ∧
      t.session.KeepsFor c.scope.source child.registrations t'.session := by
  intro c searched
  have hspecializes := c.specializes t.session condition
  rcases hrun : c.specialize (some condition) t.session with ⟨e | child, s'⟩
  · rw [specialize_of_error hrun] at hspecialize
    cases hspecialize
  · rw [specialize_of_ok hrun] at hspecialize
    cases hspecialize
    have hscope : child.scope = c.scope := Context.scope_of_specialize (by rw [hrun])
    refine ⟨rfl, child, rfl, hscope, ?_⟩
    rw [hrun] at hspecializes
    cases hspecializes with
    | unsearched hnot =>
        refine ⟨fun _ => ⟨rfl, rfl⟩, fun hsearch => ?_, .nothing _ _⟩
        cases hnot.symm.trans hsearch
    | @discovered _ s' n hsearch hdiscover =>
        refine ⟨fun hnot => ?_, fun _ => ⟨n, s', rfl, hdiscover⟩, ?_⟩
        · cases hsearch.symm.trans hnot
        · obtain ⟨added, hgains, hkeeps, -⟩ := Extension.discover_keepsFor hdiscover
          rw [hgains.registrations_of_nothing rfl]
          exact hkeeps.log _

/-- The context that was to be made is dropped, with the registrations it had by then. The indexes
that these were made with stay. -/
theorem specialize_fails {e : Error}
    (hspecialize : t.specialize h (some condition) = (.error e, t')) :
    let c := t.contexts.get h
    t'.contexts = t.contexts ∧ (c.scope.config.enabled && condition.isOperation) = true ∧
      ∃ child,
        Extension.discover condition (.ofScope c.scope, t.session) =
          (.error e, child, t'.session) ∧
        Extension.Aborts (condition.equalities c.scope.registry) (.ofScope c.scope) t.session e
          child.registrations.length child t'.session ∧
        t.session.KeepsFor c.scope.source child.registrations t'.session := by
  intro c
  have hspecializes := c.specializes t.session condition
  rcases hrun : c.specialize (some condition) t.session with ⟨e' | child, s'⟩
  · rw [specialize_of_error hrun] at hspecialize
    cases hspecialize
    rw [hrun] at hspecializes
    cases hspecializes with
    | @failed child _ _ hsearch hdiscover =>
        obtain ⟨added, hgains, hkeeps, -, haborts⟩ := Extension.discover_keepsFor hdiscover
        have hadded := hgains.registrations_of_nothing rfl
        rw [← hadded] at hkeeps haborts
        exact ⟨rfl, hsearch, child, hdiscover, haborts _ rfl, hkeeps⟩
  · rw [specialize_of_ok hrun] at hspecialize
    cases hspecialize

end Specialize

/-- Discovery counts what it adds. If it is aborted, it has come to an equality that fails, and what
those before have led to remains. -/
theorem discover_gains {h : t.Handle} {condition : Expr} {x : Except Error Nat}
    (hdiscover : t.discover h condition = (x, t')) :
    let c := t.contexts.get h
    ∃ c' added, t'.contexts = t.contexts.set h c' ∧ c.Gains added c' ∧
      t.session.KeepsFor c.scope.source added t'.session ∧
      (∀ n, x = .ok n → n = added.length) ∧
      ∀ e, x = .error e → Extension.Aborts (condition.equalities c.scope.registry) c t.session e
        added.length c' t'.session := by
  intro c
  rcases hrun : Extension.discover condition (c, t.session) with ⟨y, c', s'⟩
  rw [discover, extend_of_run hrun] at hdiscover
  cases hdiscover
  obtain ⟨added, hgains⟩ := Extension.discover_keepsFor hrun
  exact ⟨c', added, rfl, hgains⟩

theorem use_frame (h : t.Handle) (u : Use) {number : Nat} (hother : number ≠ h.val)
    (hnumber : number < t.contexts.length) :
    (t.use h u).contexts[number]? = t.contexts[number]? := by
  have hextend : ∀ {β : Type} (act : Extension σ β),
      (t.extend h act).2.contexts[number]? = t.contexts[number]? := by
    intro β act
    rcases hrun : act (t.contexts[h], t.session) with ⟨x, c', s'⟩
    rw [extend_of_run hrun]
    exact List.getElem?_set_ne (Ne.symm hother)
  cases u with
  | specialize condition? =>
      cases condition? with
      | none => rfl
      | some condition =>
          rcases hrun : t.contexts[h].specialize (some condition) t.session with ⟨e | child, s'⟩
          · rw [use, specialize_of_error hrun]
          · rw [use, specialize_of_ok hrun, List.getElem?_append_left hnumber]
  | discover condition => exact hextend _
  | register queried r => exact hextend _
  | buildIndex path => rfl
  | resolve e => rfl
  | resolveUnder e bindings => rfl
  | scan e => rfl

theorem registration?_afterAll (h : t.Handle) {queried : Expr} {r : Registration}
    (hregistered : (t.contexts.get h).registration? queried = some r) (actions : List Action) :
    ∃ c', (t.afterAll actions).contexts[h.val]? = some c' ∧ c'.registration? queried = some r := by
  have hc : t.contexts[h.val]? = some (t.contexts.get h) := by
    simp
  obtain ⟨c', added, hc', hgains⟩ := Grows.afterAll t actions h.val _ hc
  exact ⟨c', hc', hgains.registration? hregistered⟩

/-- Every context has its registrations to itself. One that is specialized gets those that are
discovered from nothing, if it comes into being at all, and the indexes for them are kept for all
contexts even if it does not. Whatever is done to a tree only adds to the registrations of the
context that it is done with. -/
theorem registrations_owned (t : ContextTree σ) (h : t.Handle) (condition : Expr) :
    let c := t.contexts.get h
    let searched := c.scope.config.enabled && condition.isOperation
    (∀ number t', t.specialize h (some condition) = (.ok number, t') →
      number = t.contexts.length ∧
        ∃ child, t'.contexts = t.contexts ++ [child] ∧ child.scope = c.scope ∧
          (searched = false → child = .ofScope c.scope ∧ t'.session = t.session) ∧
          (searched = true → ∃ n s', t'.session.cache = s'.cache ∧
            Extension.discover condition (.ofScope c.scope, t.session) = (.ok n, child, s')) ∧
          t.session.KeepsFor c.scope.source child.registrations t'.session ∧
          ∀ path, (t.session.cache.contains path = true ∨
              ∃ registered ∈ child.registrations, registered.2.path = path) →
            ∀ h' : t'.Handle, ∃ index t'', t'.buildIndex h' path = (.ok index, t'') ∧
              t''.session.cache = t'.session.cache ∧ t''.session.passes = t'.session.passes) ∧
    (∀ e t', t.specialize h (some condition) = (.error e, t') →
      t'.contexts = t.contexts ∧ searched = true ∧ ∃ child,
        Extension.discover condition (.ofScope c.scope, t.session) =
          (.error e, child, t'.session) ∧
        Extension.Aborts (condition.equalities c.scope.registry) (.ofScope c.scope) t.session e
          child.registrations.length child t'.session ∧
        t.session.KeepsFor c.scope.source child.registrations t'.session) ∧
    (∀ x t', t.discover h condition = (x, t') → ∃ c' added,
      t'.contexts = t.contexts.set h c' ∧ c.Gains added c' ∧
        t.session.KeepsFor c.scope.source added t'.session ∧
        (∀ n, x = .ok n → n = added.length) ∧
        ∀ e, x = .error e → Extension.Aborts (condition.equalities c.scope.registry) c t.session e
          added.length c' t'.session) ∧
    (∀ queried r, ∃ c' t', t.extend h (.register queried r) = (.ok (!c.isIndexed queried), t') ∧
      t'.contexts = t.contexts.set h c' ∧ t'.session.cache = t.session.cache ∧
        c.Gains (if c.isIndexed queried then [] else [(queried, r)]) c' ∧
        c'.registration? queried = some ((c.registration? queried).getD r)) ∧
    (∀ u number, number ≠ h.val → number < t.contexts.length →
      (t.use h u).contexts[number]? = t.contexts[number]?) ∧
    ∀ queried r, c.registration? queried = some r → ∀ actions, ∃ c',
      (t.afterAll actions).contexts[h.val]? = some c' ∧ c'.registration? queried = some r := by
  intro c searched
  refine ⟨?_, fun e t' => specialize_fails, fun x t' => discover_gains, ?_,
    fun u number => use_frame h u, fun queried r => registration?_afterAll h⟩
  · intro number t' hspecialize
    obtain ⟨hnumber, child, hcontexts, hscope, hunsearched, hsearched, hkeeps⟩ :=
      specialize_succeeds hspecialize
    exact ⟨hnumber, child, hcontexts, hscope, hunsearched, hsearched, hkeeps,
      fun path => buildIndex_of_keepsFor hkeeps⟩
  · intro queried r
    obtain ⟨c', s', hrun, hgains, hcache, hregistered⟩ :=
      Extension.register_apply queried r c t.session
    exact ⟨c', _, extend_of_run hrun, rfl, hcache, hgains, hregistered⟩

def kennels : Collections :=
  .ofList
    [("owner", [⟨1, [.int64 1]⟩]), ("kennel", [⟨5, [.int64 1]⟩]), ("pet", [⟨10, [.int64 1]⟩])]

/-- The pets cannot be read in the first pass. -/
def unreadablePets : Fault :=
  ⟨"pet", none, "unreadable", some 1⟩

def kennelScope : Scope (List Fault) :=
  ⟨kennels.faultySource, [.path (.root "owner"), .path (.root "kennel"), .path (.root "pet")],
    .standard, .standard⟩

def petsInKennels : Expr :=
  .operation .and
    [.operation (.comparison .eq) [.constant (.int64 1), .path (.field "owner" "id" 0)],
      .operation (.comparison .eq) [.path (.field "kennel" "owner" 0), .path (.field "owner" "id" 0)],
      .operation (.comparison .eq) [.path (.field "pet" "owner" 0), .path (.field "owner" "id" 0)]]

/-- The owners and the kennels are indexed before the pets turn out to be unreadable. Both indexes
stay, and so do the registrations if they were made in a context that is there. -/
theorem registrations_owned_unreadablePets :
    let t := ofScope kennelScope [unreadablePets]
    let made : List (Expr × Registration) :=
      [(.path (.root "owner"), ⟨.field "owner" "id" 0, .static (.constant (.int64 1))⟩),
        (.path (.root "kennel"), ⟨.field "kennel" "owner" 0, .bound (.field 0 0) [0]⟩)]
    (∃ t', t.specialize ⟨0, by decide⟩ (some petsInKennels) =
        (.error (.source "pet" "unreadable"), t') ∧
      t'.contexts = t.contexts ∧ t.session.KeepsFor kennelScope.source made t'.session ∧
      t'.session.cache.entries =
        [(.field "owner" "id" 0, .byField 0 [⟨1, [.int64 1]⟩]),
          (.field "kennel" "owner" 0, .byField 0 [⟨5, [.int64 1]⟩])]) ∧
    ∃ t', t.discover ⟨0, by decide⟩ petsInKennels = (.error (.source "pet" "unreadable"), t') ∧
      ∀ entry ∈ made, ∀ actions, ∃ c', (t'.afterAll actions).contexts[0]? = some c' ∧
        c'.registration? entry.1 = some entry.2 := by
  intro t made
  obtain ⟨s', hentries, hrun⟩ : ∃ s' : Session (List Fault),
      s'.cache.entries =
        [(.field "owner" "id" 0, .byField 0 [⟨1, [.int64 1]⟩]),
          (.field "kennel" "owner" 0, .byField 0 [⟨5, [.int64 1]⟩])] ∧
      Extension.discover petsInKennels (.ofScope kennelScope, .start [unreadablePets]) =
        (.error (.source "pet" "unreadable"), ⟨kennelScope, made⟩, s') :=
    ⟨⟨_, ⟨_, _⟩, _, _⟩, rfl, rfl⟩
  constructor
  · have hspecialize : t.specialize ⟨0, by decide⟩ (some petsInKennels) =
        (.error (.source "pet" "unreadable"), { t with session := s' }) :=
      specialize_of_error (Context.specialize_of_failure rfl hrun)
    obtain ⟨hcontexts, -, child, hdiscover, -, hkeeps⟩ :=
      (registrations_owned t ⟨0, by decide⟩ petsInKennels).2.1 _ _ hspecialize
    obtain rfl : child = ⟨kennelScope, made⟩ :=
      congrArg (·.2.1) (hdiscover.symm.trans hrun)
    exact ⟨_, hspecialize, hcontexts, hkeeps, hentries⟩
  · refine ⟨⟨[⟨kennelScope, made⟩], s'⟩, extend_of_run hrun, ?_⟩
    obtain ⟨-, -, -, -, -, hstays⟩ :=
      registrations_owned ⟨[⟨kennelScope, made⟩], s'⟩ ⟨0, Nat.zero_lt_one⟩ petsInKennels
    intro entry hentry actions
    rcases List.mem_pair.mp hentry with rfl | rfl
    · exact hstays _ _ rfl actions
    · exact hstays _ _ rfl actions

end ContextTree

end IndexedQuery
