import IndexedQuery.Proofs.Runner.Reachable
import IndexedQuery.Proofs.Runner.Transparency
import IndexedQuery.Proofs.Session.Recovery

namespace IndexedQuery

variable {σ : Type} {collections : String → Except Error (List Row)} {sources : List Expr}
  {scope : Scope σ}

/-- What may be bound to a source or a parameter: a row of the collection, or any value. -/
inductive Binding.Fits (collections : String → Except Error (List Row)) :
    Expr → Binding → Prop where
  | element {name : String} {found : List Row} {row : Row} (collection : collections name = .ok found)
      (member : row ∈ found) : Fits collections (.path (.root name)) (.element row)
  | value (name : String) (v : Value) : Fits collections (.param name) (.value v)

/-- The bindings once the slots of the sources from `slot` on are freed. Parameters stay. -/
def freeFrom (sources : List Expr) (slot : Nat) (bindings : List Binding) : List Binding :=
  bindings.mapIdx fun i b =>
    if slot ≤ i ∧ (sources[i]?.bind Expr.rootName?).isSome then .unbound else b

theorem agreeBefore_freeFrom (sources : List Expr) (slot : Nat) (bindings : List Binding) :
    AgreeBefore sources slot (freeFrom sources slot bindings) bindings := by
  intro i hi
  have hstays : ¬ (slot ≤ i ∧ (sources[i]?.bind Expr.rootName?).isSome) := by
    rintro ⟨hle, hroot⟩
    rcases hi with hlt | ⟨name, hparam⟩
    · exact absurd hle (Nat.not_le_of_lt hlt)
    · rw [getElem?_of_paramSlot? hparam] at hroot
      cases hroot
  rw [freeFrom, List.getD_eq_getElem?_getD, List.getElem?_mapIdx, List.getD_eq_getElem?_getD]
  simp only [if_neg hstays, Option.map_id']

theorem Elements.rows_of_toPass {elements : Elements} {found : List Row}
    (h : elements.toPass = found.map .ok) : elements.rows = .ok found := by
  rw [rows, h, List.mapM_map]
  exact List.mapM_pure.trans (congrArg Except.ok found.map_id)

theorem Binding.Fits.mem_rowsIn {slot : Nat} {name : String} {row : Row} {bindings : List Binding}
    (hfits : List.Forall₂ (Fits collections) sources bindings)
    (hsource : sources[slot]? = some (.path (.root name)))
    (hrow : bindings[slot]? = some (.element row)) : row ∈ Source.rowsIn collections name := by
  obtain ⟨hslot, hsource⟩ := List.getElem?_eq_some_iff.mp hsource
  obtain ⟨hslot', hrow⟩ := List.getElem?_eq_some_iff.mp hrow
  have hfit := (List.forall₂_iff_get.mp hfits).2 slot hslot hslot'
  rw [List.get_eq_getElem, List.get_eq_getElem, hsource, hrow] at hfit
  cases hfit with
  | element collection member => rwa [Source.rowsIn_of_ok collection]

/-- Where the equalities hold of a whole tuple, each of its rows is found before the later ones are
bound. -/
theorem Context.AllPinned.mem_resolveUnder {c : Context σ} {rows : String → List Row}
    {names : List String} {s : Session σ} {equalities : List (Expr × Expr)}
    (hc : c.AllPinned rows equalities) (hscope : c.scope = scope)
    (hs : s.Settled scope.source rows names) (distinct : (rootNames scope.sources).Nodup)
    {bindings : List Binding}
    (hequal : ∀ equality ∈ equalities, EqualUnder scope.sources bindings equality)
    {slot : Nat} {name : String} {row : Row}
    (hsource : scope.sources[slot]? = some (.path (.root name))) (hname : name ∈ names)
    (hrow : bindings[slot]? = some (.element row)) (hmem : row ∈ rows name) :
    ∃ elements found,
      (c.resolveUnder (.path (.root name)) (freeFrom scope.sources slot bindings) s).1 =
        .ok elements ∧ elements.rows = .ok found ∧ row ∈ found := by
  subst hscope
  obtain ⟨elements, s', hresolve, -, hpass⟩ := hc.resolveUnder_settled hs (p := .root name) hname
    (freeFrom c.scope.sources slot bindings)
  refine ⟨elements, _, by rw [hresolve], Elements.rows_of_toPass hpass, ?_⟩
  apply List.mem_filter.mpr ⟨hmem, ?_⟩
  have hfirst : ∀ first, rootSlot? c.scope.sources (Path.root name).rootName = some first →
      first = slot :=
    fun _ => eq_of_rootSlot? distinct hsource
  rw [hc.admits_congr (fun first h => Nat.le_of_eq (hfirst first h))
    (agreeBefore_freeFrom c.scope.sources slot bindings)]
  apply hc.admits_of_equalUnder hequal
  intro first h
  rw [hfirst first h, List.getD_eq_getElem?_getD, hrow]
  rfl

namespace ContextTree

theorem recovered_afterAll {start : σ} (discloses : scope.source.Discloses collections start)
    (actions : List Action) (serves : scope.source.Serves collections
      ((ofScope scope start).afterAll actions).session.source) :
    ((ofScope scope start).afterAll actions).Upholds scope
      (Session.Recovered scope.source collections) :=
  have hcurrent := (Upholds.ofScope (Session.current_start discloses)).afterAll
    (Session.current_persistent scope.source collections) actions
  ⟨hcurrent.scope_eq, serves, hcurrent.session.cache⟩

theorem Upholds.specialize_of_recovered {t : ContextTree σ}
    (ht : t.Upholds scope (Session.Recovered scope.source collections))
    (given : ∀ name ∈ rootNames scope.sources, ∃ found, collections name = .ok found)
    (h : t.Handle) (condition : Expr) :
    ∃ s', t.specialize h (some condition) = (.ok t.contexts.length,
      ⟨t.contexts ++ [(Context.ofScope scope).specialized (Source.rowsIn collections)
        (some condition)], s'⟩) := by
  have hscope : t.contexts[h].scope = scope := ht.scope_handle h
  subst scope
  obtain ⟨s', hspecialize, -⟩ := Context.specialize_settled (ht.session.settled given)
    t.contexts[h].scope.within_rootNames (some condition)
  exact ⟨s', specialize_of_ok hspecialize⟩

/-- From when the source no longer fails, a specialized context is to be had, and it finds the rows
of any tuple that satisfies the condition, each among those of its source. -/
theorem mem_resolveUnder_specialize {start : σ}
    (discloses : scope.source.Discloses collections start)
    (given : ∀ name ∈ rootNames scope.sources, ∃ found, collections name = .ok found)
    (distinct : (rootNames scope.sources).Nodup) (exact : scope.registry.Exact)
    (actions : List Action) (h : ((ofScope scope start).afterAll actions).Handle)
    (serves : scope.source.Serves collections
      ((ofScope scope start).afterAll actions).session.source) (condition : Expr) :
    let t := (ofScope scope start).afterAll actions
    ∃ child t', t.specialize h (some condition) = (.ok t.contexts.length, t') ∧
      t'.contexts = t.contexts ++ [child] ∧
      ∀ later bindings evaluator, List.Forall₂ (Binding.Fits collections) scope.sources bindings →
        compile scope.sources condition = .ok evaluator → IsTrue (evaluator.evaluate bindings) →
          ∀ slot name row, scope.sources[slot]? = some (.path (.root name)) →
            bindings[slot]? = some (.element row) →
              ∃ elements found,
                (child.resolveUnder (.path (.root name)) (freeFrom scope.sources slot bindings)
                  (t'.afterAll later).session).1 = .ok elements ∧
                elements.rows = .ok found ∧ row ∈ found := by
  intro t
  have hP := Session.recovered_persistent scope.source collections
  have ht : t.Upholds scope (Session.Recovered scope.source collections) :=
    recovered_afterAll discloses actions serves
  obtain ⟨s', hspecialize⟩ := ht.specialize_of_recovered given h condition
  have ht' := ht.specialize hP h (some condition)
  rw [hspecialize] at ht'
  refine ⟨_, _, hspecialize, rfl, ?_⟩
  intro later bindings evaluator hfits hcompile htrue slot name row hsource hrow
  have hpinned : ((Context.ofScope scope).specialized (Source.rowsIn collections)
      (some condition)).AllPinned (Source.rowsIn collections)
      (condition.equalities scope.registry) :=
    Context.allPinned_specialized rfl (some condition)
  exact hpinned.mem_resolveUnder (Context.scope_specialized _ _)
    ((ht'.afterAll hP later).session.settled given) distinct
    (equalUnder_of_compiled exact hcompile htrue) hsource (mem_rootNames hsource) hrow
    (Binding.Fits.mem_rowsIn hfits hsource hrow)

def petScope : Scope Unit :=
  ⟨Runner.petShop.source, [.param "low", .path (.root "owner"), .param "id", .path (.root "pet")],
    .standard, .standard⟩

def petsOf : Expr :=
  .operation .and
    [.operation (.comparison .eq) [.param "id", .path (.field "owner" "id" 0)],
      .operation .and
        [.operation (.comparison .ge) [.path (.field "owner" "id" 0), .param "low"],
          .operation (.comparison .eq)
            [.path (.field "pet" "owner" 0), .path (.field "owner" "id" 0)]]]

theorem mem_resolveUnder_petsOf :
    let t := ofScope petScope ()
    ∃ child t', t.specialize ⟨0, by decide⟩ (some petsOf) = (.ok 1, t') ∧
      t'.contexts = t.contexts ++ [child] ∧ child.registrations.length = 2 ∧
      ∃ elements found, (child.resolveUnder (.path (.root "pet"))
          [.value (.int64 1), .element ⟨2, [.int64 2]⟩, .value (.int64 2), .unbound]
          t'.session).1 = .ok elements ∧
        elements.rows = .ok found ∧ ⟨12, [.int64 2]⟩ ∈ found := by
  intro t
  have serves : petScope.source.Serves Runner.petShop.rows () := Runner.petShop.source_serves
  have given : ∀ name ∈ rootNames petScope.sources, ∃ found,
      Runner.petShop.rows name = .ok found := by
    intro name hname
    have hname : name ∈ ["owner", "pet"] := hname
    rcases (by simpa using hname : name = "owner" ∨ name = "pet") with rfl | rfl
    · exact ⟨_, rfl⟩
    · exact ⟨_, rfl⟩
  obtain ⟨child, t', htree, hcontexts, hfound⟩ := mem_resolveUnder_specialize serves.discloses given
    (by decide) Registry.standard_exact [] ⟨0, by decide⟩ serves petsOf
  have hfits : List.Forall₂ (Binding.Fits Runner.petShop.rows) petScope.sources
      [.value (.int64 1), .element ⟨2, [.int64 2]⟩, .value (.int64 2),
        .element ⟨12, [.int64 2]⟩] :=
    .cons (.value _ _) (.cons (.element rfl (.tail _ (.head _)))
      (.cons (.value _ _) (.cons (.element rfl (.tail _ (.tail _ (.head _)))) .nil)))
  refine ⟨child, t', htree, hcontexts, ?_, ?_⟩
  · have htree' : (t.specialize ⟨0, by decide⟩ (some petsOf)).2 = t' := congrArg Prod.snd htree
    have hregistered : t'.contexts.map (·.registrations.length) = [0, 2] := by
      rw [← htree']
      rfl
    rw [hcontexts] at hregistered
    exact List.head_eq_of_cons_eq (List.tail_eq_of_cons_eq hregistered)
  · exact hfound [] _ _ hfits rfl rfl 3 "pet" ⟨12, [.int64 2]⟩ rfl rfl

end ContextTree

end IndexedQuery
