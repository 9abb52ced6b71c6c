import IndexedQuery.Proofs.Context.Accounts
import IndexedQuery.Proofs.Runner.Reachable

namespace IndexedQuery

variable {σ : Type} {rows : String → List Row} {names scans : List String} {scope : Scope σ}

abbrev Resolution :=
  Expr × Except Error Elements

def Resolution.scanned (resolution : Resolution) : List String :=
  resolution.1.scansFor resolution.2

theorem Scope.within_of_named (h : ∀ e ∈ scope.sources, e.Named names) : scope.Within names :=
  fun _ _ hslot => h _ (List.mem_of_getElem? (getElem?_of_rootSlot? hslot)) _ rfl

namespace Runner

/-- What a query does to the session it starts in: it specializes the context for the condition,
resolves roots in the context that comes of that, and reports. The list has the resolutions, the
last one first. -/
inductive Makes (r : Runner σ) (condition? : Option Expr) (s : Session σ) :
    List Resolution → Session σ → Prop where
  | nothing : Makes r condition? s [] s
  | specialize {made : List Resolution} {s' : Session σ} (before : Makes r condition? s made s') :
      Makes r condition? s made (r.context.specialize condition? s').2
  | resolve {made : List Resolution} {s' s₀ : Session σ} {c : Context σ} {root : Expr}
      (before : Makes r condition? s made s')
      (specialized : (r.context.specialize condition? s₀).1 = .ok c)
      (mem : root ∈ c.scope.sources.take r.roots) (bindings : List Binding) :
      Makes r condition? s ((root, (c.resolveUnder root bindings s').1) :: made)
        (c.resolveUnder root bindings s').2
  | report {made : List Resolution} {s' : Session σ} (before : Makes r condition? s made s')
      (indexed roots : Nat) :
      Makes r condition? s made { s' with log := .executed indexed roots :: s'.log }

variable {r : Runner σ} {s : Session σ} {q : Query}

theorem ask_accounted (hsources : ∀ e ∈ r.context.scope.sources, e.Named names)
    (hc : r.context.Covered rows names)
    (hq : ∀ condition, q.condition? = some condition → condition.Filled rows)
    (hs : s.Accounted r.context.scope.source rows names scans) (args : List Value) :
    ∃ made, r.Makes q.condition? s made (r.ask args q s).2 ∧
      (r.ask args q s).2.Accounted r.context.scope.source rows names
        (made.flatMap Resolution.scanned ++ scans) := by
  have hwithin := Scope.within_of_named hsources
  suffices hkeeps : Keeps (fun s' => ∃ made, r.Makes q.condition? s made s' ∧
      s'.Accounted r.context.scope.source rows names
        (made.flatMap Resolution.scanned ++ scans)) (r.ask args q) from
    hkeeps s ⟨[], .nothing, hs⟩
  rw [keeps_iff_lockstep]
  refine ask_lockstep_of ?_ ?_ ?_ args rfl
  · rw [← keeps_iff_lockstep]
    rintro s' ⟨made, hmade, hs'⟩
    exact ⟨made, hmade.specialize, Context.specialize_accounted hwithin hq s' hs'⟩
  · rintro s₀ _ c ⟨rfl, _, -, hs₀⟩ hspecialize root hroot bindings
    -- What is discovered depends on the condition and the rows only, so the lookups are covered.
    obtain ⟨s₁, hrun, -⟩ := Context.specialize_settled hs₀.settled hwithin q.condition?
    have hchild : r.context.specialized rows q.condition? = c := by
      rw [hrun] at hspecialize
      exact Except.ok.inj hspecialize
    have hscope : c.scope = r.context.scope := Context.scope_of_specialize hspecialize
    have hcovered : c.Covered rows names := hchild ▸ hc.specialized hwithin q.condition?
    have hnamed : root.Named names := by
      rw [hscope] at hroot
      exact hsources root (List.mem_of_mem_take hroot)
    rw [← keeps_iff_lockstep]
    rintro s' ⟨made, hmade, hs'⟩
    refine ⟨_, hmade.resolve hspecialize hroot bindings, ?_⟩
    rw [← hscope] at hs' ⊢
    rw [List.flatMap_cons, List.append_assoc]
    exact (c.resolves_resolveUnder root bindings).accounted hcovered hnamed hs'
  · intro indexed roots
    rw [← keeps_iff_lockstep]
    rintro s' ⟨made, hmade, hs'⟩
    exact ⟨made, hmade.report indexed roots, hs'.report (by simp)⟩

end Runner

namespace ContextTree

variable {t : ContextTree σ}

/-- All fields that an index may be asked for are there, and all collections that may be scanned are
given. -/
def Use.Covered (rows : String → List Row) (names : List String) : Use → Prop
  | .specialize condition? => ∀ condition, condition? = some condition → condition.Filled rows
  | .discover condition => condition.Filled rows
  | .register _ r => r.path.Covered rows names
  | .buildIndex path => path.Covered rows names
  | .resolve e | .resolveUnder e _ | .scan e => e.Named names

def Action.Covered (rows : String → List Row) (names : List String) : Action → Prop
  | .use _ u => u.Covered rows names
  | .ask _ _ _ _ q => ∀ condition, q.condition? = some condition → condition.Filled rows

def resolutions (t : ContextTree σ) (h : t.Handle) : Use → List Resolution
  | .resolve e => [(e, (t.resolve h e).1)]
  | .resolveUnder e bindings => [(e, (t.resolveUnder h e bindings).1)]
  | .scan e => [(e, (t.scan h e).1)]
  | _ => []

/-- The resolutions of an action, those inside of runners included, the last one first. -/
def Makes (t : ContextTree σ) (made : List Resolution) : Action → Prop
  | .use number u =>
      made = if h : number < t.contexts.length then t.resolutions ⟨number, h⟩ u else []
  | .ask number roots params args q =>
      match t.contexts[number]? with
      | some c => Runner.Makes ⟨c, roots, params⟩ q.condition? t.session made
          (t.act (.ask number roots params args q)).session
      | none => made = []

def MakesAll (t : ContextTree σ) (made : List Resolution) : List Action → Prop
  | [] => made = []
  | a :: actions => ∃ first later, made = later ++ first ∧ t.Makes first a ∧
      (t.act a).MakesAll later actions

/-- All passes of the session are accounted for, and no registration of a context gives rise to one
that would not be. -/
structure Accounted (scope : Scope σ) (rows : String → List Row) (names scans : List String)
    (t : ContextTree σ) : Prop where
  upholds : t.Upholds scope (Session.Accounted scope.source rows names scans)
  covered : ∀ c ∈ t.contexts, c.Covered rows names

namespace Accounted

theorem ofScope {start : σ} (yields : scope.source.Yields rows names start) :
    (ofScope scope start).Accounted scope rows names [] where
  upholds := .ofScope (Session.accounted_start yields)
  covered c hc := by
    rw [List.mem_singleton.mp hc]
    exact Context.covered_ofScope scope

theorem covered_handle (ht : t.Accounted scope rows names scans) (h : t.Handle) :
    (t.contexts.get h).Covered rows names :=
  ht.covered _ (List.get_mem t.contexts h)

theorem extend (ht : t.Accounted scope rows names scans) (h : t.Handle) {α : Type}
    {act : Extension σ α}
    (hact : Lockstep (Extension.Related scope fun s s' => s = s' ∧
      s.Accounted scope.source rows names scans) act)
    (hcovered : (act (t.contexts.get h, t.session)).2.1.Covered rows names) :
    (t.extend h act).2.Accounted scope rows names scans := by
  refine ⟨ht.upholds.extend h hact, ?_⟩
  intro c hc
  rcases List.mem_or_eq_of_mem_set hc with hc | rfl
  · exact ht.covered c hc
  · exact hcovered

theorem specialize (ht : t.Accounted scope rows names scans) (h : t.Handle)
    (hwithin : scope.Within names) {condition? : Option Expr}
    (hcondition : ∀ condition, condition? = some condition → condition.Filled rows) :
    (t.specialize h condition?).2.Accounted scope rows names scans := by
  have hscope : t.contexts[h].scope = scope := ht.upholds.scope_handle h
  subst scope
  refine ⟨ht.upholds.specialize_of_keeps h _ (Context.specialize_accounted hwithin hcondition), ?_⟩
  cases condition? with
  | none => exact ht.covered
  | some condition =>
      obtain ⟨s', hrun, -⟩ := Context.specialize_settled ht.upholds.session.settled hwithin
        (some condition)
      rw [specialize_of_ok hrun]
      refine List.forall_mem_append.mpr ⟨ht.covered, ?_⟩
      simpa using (ht.covered_handle h).specialized hwithin (some condition)

theorem discover (ht : t.Accounted scope rows names scans) (h : t.Handle)
    (hwithin : scope.Within names) {condition : Expr} (hcondition : condition.Filled rows) :
    (t.discover h condition).2.Accounted scope rows names scans := by
  refine ht.extend h (Extension.discover_accounted hwithin hcondition) ?_
  have hscope := ht.upholds.scope_handle h
  subst scope
  obtain ⟨n, s', hrun, -⟩ := Extension.discover_settled condition ht.upholds.session.settled hwithin
  rw [hrun]
  exact (ht.covered_handle h).considerAll hwithin _

theorem register (ht : t.Accounted scope rows names scans) (h : t.Handle) (queried : Expr)
    {r : Registration} (hr : r.path.Covered rows names) :
    (t.extend h (.register queried r)).2.Accounted scope rows names scans := by
  refine ht.extend h (Extension.register_lockstep_of
    (fun _ he => Session.Accounted.report_lockstep he) queried r) ?_
  rcases hnew : (t.contexts.get h).isIndexed queried with _ | _
  · rw [Extension.register_of_new r hnew]
    exact (ht.covered_handle h).register queried hr
  · rw [Extension.register_of_registered r hnew]
    exact ht.covered_handle h

theorem run (ht : t.Accounted scope rows names scans) {α : Type} {act : Run σ α}
    {scans' : List String}
    (hact : (act t.session).2.Accounted scope.source rows names scans') :
    (t.run act).2.Accounted scope rows names scans' :=
  ⟨⟨ht.upholds.scope_eq, hact⟩, ht.covered⟩

theorem use (ht : t.Accounted scope rows names scans) (hwithin : scope.Within names)
    (h : t.Handle) {u : Use} (hu : u.Covered rows names) :
    (t.use h u).Accounted scope rows names
      ((t.resolutions h u).flatMap Resolution.scanned ++ scans) := by
  have hscope : t.contexts[h].scope = scope := ht.upholds.scope_handle h
  have hs := ht.upholds.session
  have hc := ht.covered_handle h
  cases u with
  | specialize condition? => exact ht.specialize h hwithin hu
  | discover condition => exact ht.discover h hwithin hu
  | register queried r => exact ht.register h queried hu
  | buildIndex path =>
      subst scope
      exact ht.run (Context.buildIndex_accounted hu _ hs)
  | resolve e =>
      subst scope
      rw [resolutions, List.flatMap_singleton]
      exact ht.run ((Context.resolves_resolve _ e).accounted hc hu hs)
  | resolveUnder e bindings =>
      subst scope
      rw [resolutions, List.flatMap_singleton]
      exact ht.run ((Context.resolves_resolveUnder _ e bindings).accounted hc hu hs)
  | scan e =>
      subst scope
      rw [resolutions, List.flatMap_singleton]
      exact ht.run (Scope.scan_accounted hs hu)

theorem act (ht : t.Accounted scope rows names scans) (hsources : ∀ e ∈ scope.sources, e.Named names)
    {a : Action} (ha : a.Covered rows names) :
    ∃ made, t.Makes made a ∧
      (t.act a).Accounted scope rows names (made.flatMap Resolution.scanned ++ scans) := by
  have hwithin := Scope.within_of_named hsources
  cases a with
  | use number u =>
      refine ⟨_, rfl, ?_⟩
      simp only [ContextTree.act, step]
      split
      · exact ht.use hwithin _ ha
      · exact ht
  | ask number roots params args q =>
      rcases hget : t.contexts[number]? with _ | c
      · simp only [Makes, ContextTree.act, hget]
        exact ⟨[], rfl, ht⟩
      · have hmem := List.mem_of_getElem? hget
        have hscope := ht.upholds.scope_eq c hmem
        subst scope
        obtain ⟨made, hmade, hs⟩ := Runner.ask_accounted (r := ⟨c, roots, params⟩) hsources
          (ht.covered c hmem) ha ht.upholds.session args
        simp only [Makes, ContextTree.act, hget]
        exact ⟨made, hmade, ht.run hs⟩

theorem afterAll (ht : t.Accounted scope rows names scans)
    (hsources : ∀ e ∈ scope.sources, e.Named names) {actions : List Action}
    (hactions : ∀ a ∈ actions, a.Covered rows names) :
    ∃ made, t.MakesAll made actions ∧
      (t.afterAll actions).Accounted scope rows names
        (made.flatMap Resolution.scanned ++ scans) := by
  induction actions generalizing t scans with
  | nil => exact ⟨[], rfl, ht⟩
  | cons a actions ih =>
      obtain ⟨first, hfirst, hact⟩ := ht.act hsources (hactions a (.head actions))
      obtain ⟨later, hlater, hrest⟩ :=
        ih hact fun other hother => hactions other (.tail a hother)
      refine ⟨later ++ first, ⟨first, later, rfl, hfirst, hlater⟩, ?_⟩
      rwa [List.flatMap_append, List.append_assoc]

end Accounted

/-- Every pass over a collection was made for an index that is kept, of which there is one for each
path, or for a scan that a resolution handed over. A kept index answers without any pass. -/
theorem passCount_afterAll {start : σ} (yields : scope.source.Yields rows names start)
    (sources : ∀ e ∈ scope.sources, e.Named names) (actions : List Action)
    (covered : ∀ a ∈ actions, a.Covered rows names) :
    let t := (ofScope scope start).afterAll actions
    ∃ made, (ofScope scope start).MakesAll made actions ∧
      (∀ collection, t.session.passCount collection =
        t.session.cache.paths.countP (·.rootName == collection) +
          (made.flatMap Resolution.scanned).count collection) ∧
      t.session.scanned = made.flatMap Resolution.scanned ∧
      t.session.cache.paths.Nodup ∧
      ∀ h e bindings elements t',
        t.resolve h e = (.ok elements, t') ∨ t.resolveUnder h e bindings = (.ok elements, t') →
          elements.isIndexed = true →
            (∀ r, t.contexts[h].registration? e = some r → r.path ∈ t.session.cache.paths) →
              t'.session.passes = t.session.passes := by
  intro t
  obtain ⟨made, hmade, ht⟩ := (Accounted.ofScope yields).afterAll sources covered
  rw [List.append_nil] at ht
  have htallied : t.Upholds scope fun s => s.cache.Tallied :=
    (Upholds.ofScope Cache.tallied_empty).afterAll (Session.tallied_persistent _) actions
  refine ⟨made, hmade, ht.upholds.session.passCount_eq, ht.upholds.session.scanned_eq,
    htallied.session.nodup, ?_⟩
  rintro h e bindings elements t' (hrun | hrun) hindexed hkept
  · exact (Context.resolves_resolve _ e).passes_eq hkept (apply_of_run hrun) hindexed
  · exact (Context.resolves_resolveUnder _ e bindings).passes_eq hkept (apply_of_run hrun) hindexed

def valIs (key : Expr) : Expr :=
  .operation (.comparison .eq) [.path (.field "cat" "val" 1), key]

theorem valIs_filled (key : Expr) (hkey : ∀ p, .path p ∉ key.leaves) :
    (valIs key).Filled cats.rowsOf := by
  intro p hp
  simp only [valIs, Expr.leaves, Expr.leavesAll, List.append_nil, List.mem_append,
    List.mem_singleton, Expr.path.injEq] at hp
  rcases hp with rfl | hp
  · change ∀ row ∈ cats.rowsOf "cat", 1 < row.values.length
    decide
  · exact absurd hp (hkey p)

/-- Two siblings and a runner share one index, and a runner without a condition scans. -/
def sharedCats : List Action :=
  [.use 0 (.specialize (some (valIs (.constant (.int64 1))))),
    .use 0 (.specialize (some (valIs (.param "x")))),
    .use 1 (.resolve (.path (.root "cat"))),
    .ask 0 1 1 [.int64 2] (.elements (some (valIs (.param "x")))),
    .ask 0 1 1 [.int64 2] (.elements none)]

theorem sharedCats_covered : ∀ a ∈ sharedCats, a.Covered cats.rowsOf ["cat"] := by
  have hconstant := valIs_filled (.constant (.int64 1)) (by simp [Expr.leaves])
  have hparam := valIs_filled (.param "x") (by simp [Expr.leaves])
  have hcat : Expr.Named ["cat"] (.path (.root "cat")) := by
    rintro p ⟨⟩
    exact .head []
  intro a ha
  simp only [sharedCats, List.mem_cons, List.not_mem_nil, or_false] at ha
  rcases ha with rfl | rfl | rfl | rfl | rfl
  · rintro condition ⟨⟩
    exact hconstant
  · rintro condition ⟨⟩
    exact hparam
  · exact hcat
  · rintro condition ⟨⟩
    exact hparam
  · rintro condition ⟨⟩

theorem passCount_sharedCats :
    let t := (ofScope catScope ()).afterAll sharedCats
    let t' := (t.resolveUnder ⟨2, by decide⟩ (.path (.root "cat")) [.unbound, .value (.int64 2)]).2
    t.session.cache.paths = [.field "cat" "val" 1] ∧ t.session.scanned = ["cat"] ∧
      t.session.passCount "cat" = 2 ∧ t'.session.passes = t.session.passes := by
  intro t t'
  have yields : catScope.source.Yields cats.rowsOf ["cat"] () := cats.source_yields (by decide)
  have sources : ∀ e ∈ catScope.sources, e.Named ["cat"] := by
    rintro e he p rfl
    have hp : p = .root "cat" := by simpa [catScope] using he
    rw [hp]
    exact .head []
  obtain ⟨made, -, hcount, hscanned, -, hindexed⟩ :=
    passCount_afterAll yields sources sharedCats sharedCats_covered
  refine ⟨rfl, rfl, ?_, ?_⟩
  · rw [hcount, ← hscanned]
    rfl
  · have hkept : ∀ r, t.contexts[2].registration? (.path (.root "cat")) = some r →
        r.path ∈ t.session.cache.paths := by
      intro r hr
      cases hr
      exact .head []
    exact hindexed ⟨2, by decide⟩ (.path (.root "cat")) [.unbound, .value (.int64 2)] _ t'
      (.inr rfl) rfl hkept

end ContextTree

end IndexedQuery
