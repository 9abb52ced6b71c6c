import IndexedQuery.Proofs.Context.Eligibility
import IndexedQuery.Proofs.Context.Ownership

namespace IndexedQuery

variable {σ : Type} {rows : String → List Row}

theorem Context.considerAll_again {c c' : Context σ} {equalities : List (Expr × Expr)}
    {added : List (Expr × Registration)}
    (hgrown : (considerAll rows c equalities).Gains added c') :
    considerAll rows c' equalities = c' := by
  obtain ⟨more, hmore, hfound⟩ := considerAll_gains rows c' equalities
  have hscope : c'.scope = c.scope := hgrown.scope_eq.trans (scope_considerAll rows c equalities)
  have hnothing : more = [] := by
    rw [List.eq_nil_iff_forall_not_mem]
    intro entry hentry
    obtain ⟨source, hroot, candidate, hcandidate, heligible⟩ := hfound entry hentry
    rw [hscope] at heligible
    have hindexed := hgrown.isIndexed (isIndexed_considerAll hcandidate heligible)
    rw [← hroot, hmore.fresh entry hentry] at hindexed
    cases hindexed
  rw [hmore.eq_adding, hnothing, adding_nil]

namespace ContextTree

variable {scope : Scope σ} {collections : String → Except Error (List Row)}

theorem Upholds.discover_of_grown {t : ContextTree σ} {c : Context σ} {condition : Expr}
    {added : List (Expr × Registration)}
    (ht : t.Upholds scope (Session.Recovered scope.source collections))
    (given : ∀ name ∈ rootNames scope.sources, ∃ found, collections name = .ok found)
    (h : t.Handle) (hgrown : (Context.considerAll (Source.rowsIn collections) c
      (condition.equalities scope.registry)).Gains added (t.contexts.get h)) :
    ∃ t', t.discover h condition = (.ok 0, t') ∧ t'.contexts = t.contexts ∧
      t'.session.cache = t.session.cache := by
  obtain ⟨n, s', hrun⟩ := ht.discover_of_recovered given h condition
  rw [Context.considerAll_again hgrown] at hrun
  have hwalk := (Extension.discover_eq_pinAll condition (t.contexts.get h) t.session).symm.trans hrun
  obtain ⟨more, hmore, hkept, hcount, -⟩ := Extension.pinAll_gains hwalk
  obtain rfl : more = [] := hmore.unique (.nothing _)
  obtain rfl : n = 0 := hcount n rfl
  refine ⟨_, extend_of_run hrun, ?_, hkept.cache_eq⟩
  exact List.set_getElem_self h.isLt

/-- Discovery leaves no source unregistered that a candidate is eligible for. So it registers nothing
the second time and has nothing kept, whatever was done with the tree in between. -/
theorem discover_again {start : σ} (discloses : scope.source.Discloses collections start)
    (given : ∀ name ∈ rootNames scope.sources, ∃ found, collections name = .ok found)
    (actions : List Action) (h : ((ofScope scope start).afterAll actions).Handle)
    (serves : scope.source.Serves collections
      ((ofScope scope start).afterAll actions).session.source) (condition : Expr) {n : Nat}
    {t' : ContextTree σ}
    (discovered : ((ofScope scope start).afterAll actions).discover h condition = (.ok n, t'))
    (later : List Action) :
    let t₁ := t'.afterAll later
    ∃ (h₁ : t₁.Handle) (t₂ : ContextTree σ), h₁.val = h.val ∧
      (∀ candidate ∈ Expr.orientations (condition.equalities scope.registry), ∀ source r,
        scope.Eligible (Source.rowsIn collections) source candidate r →
          t₁.contexts[h₁].isIndexed (.path (.root source)) = true) ∧
      t₁.discover h₁ condition = (.ok 0, t₂) ∧ t₂.contexts = t₁.contexts ∧
        t₂.session.cache = t₁.session.cache := by
  intro t₁
  have hP := Session.recovered_persistent scope.source collections
  have ht := recovered_afterAll discloses actions serves
  obtain ⟨_, s', hrun⟩ := ht.discover_of_recovered given h condition
  have ht' := ht.use hP h (.discover condition)
  rw [use, discovered] at ht'
  have ht₁ := ht'.afterAll hP later
  rw [discover, extend_of_run hrun] at discovered
  cases discovered
  -- Registrations are not taken back, so those of the first discovery are still there.
  obtain ⟨c₁, added, hc₁, hgrown⟩ := Grows.afterAll
    ⟨_, s'⟩ later h.val _ (List.getElem?_set_self h.isLt)
  obtain ⟨hlt, rfl⟩ := List.getElem?_eq_some_iff.mp hc₁
  obtain ⟨t₂, hagain⟩ := ht₁.discover_of_grown given ⟨h.val, hlt⟩ hgrown
  refine ⟨⟨h.val, hlt⟩, t₂, rfl, ?_, hagain⟩
  intro candidate hcandidate source r heligible
  rw [← ht.scope_handle h] at heligible
  exact hgrown.isIndexed (Context.isIndexed_considerAll hcandidate heligible)

/-- Pets have no second field, so that they are not indexed by it, neither at first nor later. -/
def namedPets : Expr :=
  .operation .and
    [.operation (.comparison .eq) [.path (.field "pet" "name" 1), .param "low"],
      .operation (.comparison .eq) [.param "id", .path (.field "owner" "id" 0)]]

theorem discover_again_namedPets :
    let t := ofScope petScope ()
    let t' := (t.discover ⟨0, by decide⟩ namedPets).2
    t.discover ⟨0, by decide⟩ namedPets = (.ok 1, t') ∧ ∀ later,
      ∃ (h₁ : (t'.afterAll later).Handle) (t₂ : ContextTree Unit), h₁.val = 0 ∧
        (t'.afterAll later).discover h₁ namedPets = (.ok 0, t₂) ∧
          t₂.contexts = (t'.afterAll later).contexts ∧
          t₂.session.cache = (t'.afterAll later).session.cache := by
  intro t t'
  have serves : petScope.source.Serves Runner.petShop.rows () := Runner.petShop.source_serves
  have discovered : t.discover ⟨0, by decide⟩ namedPets = (.ok 1, t') := rfl
  refine ⟨discovered, fun later => ?_⟩
  obtain ⟨h₁, t₂, hnumber, -, hagain⟩ := discover_again serves.discloses
    (Runner.petShop.exists_rows (by decide)) [] ⟨0, by decide⟩ serves namedPets discovered later
  exact ⟨h₁, t₂, hnumber, hagain⟩

end ContextTree

end IndexedQuery
