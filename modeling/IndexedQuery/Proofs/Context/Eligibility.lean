import IndexedQuery.Proofs.Runner.Pruning

/-!
What discovery registers where no pass fails. A source that has no registration gets the one that
the first eligible candidate for it leads to, and nothing else is registered.
-/

namespace IndexedQuery

variable {σ : Type} {scope : Scope σ} {rows : String → List Row} {source source' : String}
  {candidate equality : Expr × Expr} {candidates : List (Expr × Expr)} {r r' : Registration}

/-- The equalities, each in both orientations: what comes first is the target. -/
def Expr.orientations (equalities : List (Expr × Expr)) : List (Expr × Expr) :=
  equalities.flatMap fun equality => [equality, equality.swap]

namespace Scope

/-- A candidate for the source, with the registration it leads to: its target is a field that all
rows of the source have, its key compiles and reads no sources but earlier ones. -/
inductive Eligible (scope : Scope σ) (rows : String → List Row) (source : String) :
    Expr × Expr → Registration → Prop where
  | intro {name : String} {k slot : Nat} {key : Expr} {evaluator : Evaluator}
      (slot_eq : rootSlot? scope.sources source = some slot)
      (bound : ∀ root ∈ key.rootsRead,
        ∃ earlier < slot, rootSlot? scope.sources root = some earlier)
      (compiled : compile scope.sources key = .ok evaluator)
      (complete : ∀ row ∈ rows source, k < row.values.length) :
      Eligible scope rows source (.path (.field source name k), key)
        ⟨.field source name k, evaluator⟩

/-- The registration that the first eligible one of the candidates leads to. -/
inductive First (scope : Scope σ) (rows : String → List Row) (source : String) :
    List (Expr × Expr) → Registration → Prop where
  | here {candidate : Expr × Expr} {later : List (Expr × Expr)} {r : Registration}
      (eligible : scope.Eligible rows source candidate r) :
      First scope rows source (candidate :: later) r
  | later {candidate : Expr × Expr} {later : List (Expr × Expr)} {r : Registration}
      (ineligible : ∀ r, ¬ scope.Eligible rows source candidate r)
      (first : First scope rows source later r) : First scope rows source (candidate :: later) r

theorem Eligible.target_eq (h : scope.Eligible rows source candidate r) :
    ∃ name k, candidate.1 = .path (.field source name k) := by
  rcases h with @⟨name, k⟩
  exact ⟨name, k, rfl⟩

theorem Eligible.unique (h : scope.Eligible rows source candidate r)
    (h' : scope.Eligible rows source candidate r') : r = r' := by
  rcases h with ⟨-, -, hcompile, -⟩
  rcases h' with ⟨-, -, hcompile', -⟩
  rw [hcompile] at hcompile'
  cases hcompile'
  rfl

/-- No equality is eligible in both orientations, for each source would have to be bound before the
other. -/
theorem Eligible.not_swapped (h : scope.Eligible rows source candidate r) :
    ¬ scope.Eligible rows source' candidate.swap r' := by
  intro h'
  rcases h with @⟨name, k, slot, key, _, hslot, hbound, -, -⟩
  generalize hswap : Prod.swap (Expr.path (.field source name k), key) = flipped at h'
  rcases h' with @⟨name', k', slot', key', _, hslot', hbound', -, -⟩
  cases hswap
  have hlater := Expr.slot_lt_of_boundBefore_field (Expr.boundBefore_iff.mpr hbound) hslot'
  have hearlier := Expr.slot_lt_of_boundBefore_field (Expr.boundBefore_iff.mpr hbound') hslot
  omega

theorem Eligible.dependencies (h : scope.Eligible rows source candidate r) :
    ∃ slot, rootSlot? scope.sources source = some slot ∧ r.path.rootName = source ∧
      ∀ d ∈ r.key.dependencies, d < slot ∨ ∃ name, scope.sources[d]? = some (.param name) := by
  rcases h with @⟨name, k, slot, key, evaluator, hslot, hbound, hcompile, -⟩
  refine ⟨slot, hslot, rfl, ?_⟩
  intro d hd
  obtain ⟨leaf, hleaf, hleafSlot⟩ := (mem_dependencies_iff hcompile).mp hd
  cases leaf with
  | path p => exact .inl (Expr.slot_lt_of_boundBefore (Expr.boundBefore_iff.mpr hbound) hleaf hleafSlot)
  | param name => exact .inr ⟨name, getElem?_of_paramSlot? hleafSlot⟩
  | constant v => cases hleafSlot
  | operation op args => cases hleafSlot

theorem First.cons_iff_of_eligible (h : scope.Eligible rows source candidate r) :
    scope.First rows source (candidate :: candidates) r' ↔ r = r' := by
  constructor
  · rintro (⟨h'⟩ | ⟨hnot, -⟩)
    · exact h.unique h'
    · exact absurd h (hnot r)
  · rintro rfl
    exact .here h

theorem First.cons_iff_of_ineligible (h : ∀ r, ¬ scope.Eligible rows source candidate r) :
    scope.First rows source (candidate :: candidates) r ↔
      scope.First rows source candidates r := by
  constructor
  · rintro (⟨h'⟩ | ⟨-, hfirst⟩)
    · exact absurd h' (h r)
    · exact hfirst
  · exact .later h

theorem exists_first_iff :
    (∃ r, scope.First rows source candidates r) ↔
      ∃ candidate ∈ candidates, ∃ r, scope.Eligible rows source candidate r := by
  induction candidates with
  | nil => exact iff_of_false (by rintro ⟨_, ⟨⟩⟩) (by simp)
  | cons candidate candidates ih =>
      rw [List.exists_mem_cons_iff]
      by_cases h : ∃ r, scope.Eligible rows source candidate r
      · obtain ⟨r, hr⟩ := h
        exact iff_of_true ⟨r, .here hr⟩ (.inl ⟨r, hr⟩)
      · simp only [h, false_or, ← ih]
        exact exists_congr fun r => First.cons_iff_of_ineligible (not_exists.mp h)

end Scope

namespace Context

variable {c : Context σ}

theorem pinned?_eq_some_iff {target key : Expr} {entry : Expr × Registration} :
    c.pinned? rows target key = some entry ↔
      ∃ source, c.isIndexed (.path (.root source)) = false ∧ entry.1 = .path (.root source) ∧
        c.scope.Eligible rows source (target, key) entry.2 := by
  constructor
  · intro h
    unfold pinned? at h
    split at h
    · rename_i hassess
      obtain ⟨source, name, k, slot, rfl, hpath, hslot, hnew, hbound, hcompile⟩ :=
        assess_eq_eligible hassess
      cases hpath
      split at h
      · rename_i hall
        cases h
        exact ⟨_, hnew, rfl,
          .intro hslot (Expr.boundBefore_iff.mp hbound) hcompile (Row.allHave_iff.mp hall)⟩
      · cases h
    · cases h
  · rintro ⟨source, hnew, hentry, heligible⟩
    rcases entry with ⟨queried, r⟩
    subst hentry
    dsimp only at heligible
    rcases heligible with @⟨name, k, slot, _, evaluator, hslot, hbound, hcompile, hall⟩
    have hassess : c.assess (.path (.field source name k)) key =
        .eligible (.field source name k) evaluator := by
      simp [assess, hslot, hnew, Expr.boundBefore_iff.mpr hbound, hcompile]
    simp [pinned?, hassess, Row.allHave_iff.mpr hall]

theorem registration?_extended {queried : Expr} {added? : Option (Expr × Registration)}
    (h : c.registration? queried = none) :
    (c.extended added?).registration? queried = some r ↔
      ∃ entry, added? = some entry ∧ (entry.1 == queried) = true ∧ entry.2 = r := by
  have hadding : c.extended added? = c.adding added?.toList := rfl
  rw [hadding, registration?_adding, h, Option.none_or]
  cases added? with
  | none => simp
  | some entry => simp [List.find?_singleton, and_comm]

theorem registration?_consider (h : c.registration? (.path (.root source)) = none) :
    (consider rows c equality).registration? (.path (.root source)) = some r ↔
      c.scope.Eligible rows source equality r ∨
        c.scope.Eligible rows source equality.swap r := by
  have hnew := registration?_eq_none.mp h
  rw [consider, registration?_extended h]
  constructor
  · rintro ⟨entry, hentry, hqueried, rfl⟩
    rcases Option.or_eq_some_iff.mp hentry with hfirst | ⟨-, hsecond⟩
    · obtain ⟨source', -, hroot, heligible⟩ := pinned?_eq_some_iff.mp hfirst
      rw [hroot, Expr.path_beq_path] at hqueried
      cases hqueried
      exact .inl heligible
    · obtain ⟨source', -, hroot, heligible⟩ := pinned?_eq_some_iff.mp hsecond
      rw [hroot, Expr.path_beq_path] at hqueried
      cases hqueried
      exact .inr heligible
  · rintro (heligible | heligible)
    · refine ⟨(.path (.root source), r), Option.or_eq_some_iff.mpr (.inl ?_),
        Expr.path_beq_path.mpr rfl, rfl⟩
      exact pinned?_eq_some_iff.mpr ⟨source, hnew, rfl, heligible⟩
    · refine ⟨(.path (.root source), r), Option.or_eq_some_iff.mpr (.inr ⟨?_, ?_⟩),
        Expr.path_beq_path.mpr rfl, rfl⟩
      · rw [Option.eq_none_iff_forall_ne_some]
        intro entry hfirst
        obtain ⟨source', -, -, hother⟩ := pinned?_eq_some_iff.mp hfirst
        exact hother.not_swapped heligible
      · exact pinned?_eq_some_iff.mpr ⟨source, hnew, rfl, heligible⟩

theorem consider_gains (rows : String → List Row) (c : Context σ) (equality : Expr × Expr) :
    ∃ added, c.Gains added (consider rows c equality) ∧
      ∀ entry ∈ added, ∃ source, entry.1 = .path (.root source) ∧
        ∃ candidate ∈ [equality, equality.swap],
          c.scope.Eligible rows source candidate entry.2 := by
  rw [consider]
  rcases hadded : (c.pinned? rows equality.1 equality.2).or
    (c.pinned? rows equality.2 equality.1) with _ | entry
  · exact ⟨[], c.extended_none.symm ▸ .nothing c, by simp⟩
  · obtain ⟨candidate, hcandidate, hpinned⟩ : ∃ candidate ∈ [equality, equality.swap],
        c.pinned? rows candidate.1 candidate.2 = some entry := by
      rcases Option.or_eq_some_iff.mp hadded with hfirst | ⟨-, hsecond⟩
      · exact ⟨equality, by simp, hfirst⟩
      · exact ⟨equality.swap, by simp, hsecond⟩
    obtain ⟨source, hnew, hroot, heligible⟩ := pinned?_eq_some_iff.mp hpinned
    rw [← hroot] at hnew
    refine ⟨[entry], .single hnew entry.2, ?_⟩
    rw [List.forall_mem_singleton]
    exact ⟨source, hroot, candidate, hcandidate, heligible⟩

theorem considerAll_gains (rows : String → List Row) (c : Context σ)
    (equalities : List (Expr × Expr)) :
    ∃ added, c.Gains added (considerAll rows c equalities) ∧
      ∀ entry ∈ added, ∃ source, entry.1 = .path (.root source) ∧
        ∃ candidate ∈ Expr.orientations equalities,
          c.scope.Eligible rows source candidate entry.2 := by
  induction equalities generalizing c with
  | nil => exact ⟨[], .nothing c, by simp⟩
  | cons equality equalities ih =>
      obtain ⟨added, hgains, hadded⟩ := consider_gains rows c equality
      obtain ⟨more, hmore, hfound⟩ := ih (consider rows c equality)
      refine ⟨added ++ more, hgains.trans hmore, ?_⟩
      rw [hgains.scope_eq] at hfound
      rw [Expr.orientations, List.flatMap_cons]
      intro entry hentry
      rcases List.mem_append.mp hentry with hentry | hentry
      · obtain ⟨source, hroot, candidate, hcandidate, heligible⟩ := hadded entry hentry
        exact ⟨source, hroot, candidate, List.mem_append_left _ hcandidate, heligible⟩
      · obtain ⟨source, hroot, candidate, hcandidate, heligible⟩ := hfound entry hentry
        exact ⟨source, hroot, candidate, List.mem_append_right _ hcandidate, heligible⟩

/-- A source that has no registration gets the one that the first eligible candidate leads to, the
orientations of the equalities being the candidates. -/
theorem registration?_considerAll (equalities : List (Expr × Expr)) {c : Context σ}
    (h : c.registration? (.path (.root source)) = none) :
    (considerAll rows c equalities).registration? (.path (.root source)) = some r ↔
      c.scope.First rows source (Expr.orientations equalities) r := by
  induction equalities generalizing c with
  | nil =>
      refine iff_of_false ?_ (by rintro ⟨⟩)
      rw [show considerAll rows c [] = c from rfl, h]
      simp
  | cons equality equalities ih =>
      rw [show considerAll rows c (equality :: equalities) =
        considerAll rows (consider rows c equality) equalities from rfl]
      change _ ↔ c.scope.First rows source
        (equality :: equality.swap :: Expr.orientations equalities) r
      have hstep : ∀ r, (consider rows c equality).registration? (.path (.root source)) = some r ↔
          c.scope.Eligible rows source equality r ∨ c.scope.Eligible rows source equality.swap r :=
        fun _ => registration?_consider h
      -- The search goes on behind an equality that leads to nothing, and what one leads to stays.
      rcases hconsider : (consider rows c equality).registration? (.path (.root source))
        with _ | r₀
      · have hnot : ∀ r, ¬ c.scope.Eligible rows source equality r ∧
            ¬ c.scope.Eligible rows source equality.swap r := by
          intro r
          rw [← not_or, ← hstep, hconsider]
          simp
        rw [Scope.First.cons_iff_of_ineligible fun r => (hnot r).1,
          Scope.First.cons_iff_of_ineligible fun r => (hnot r).2]
        exact ih hconsider
      · obtain ⟨_, hmore, -⟩ := considerAll_gains rows (consider rows c equality) equalities
        rw [hmore.registration? hconsider, Option.some_inj]
        rcases (hstep r₀).mp hconsider with heligible | heligible
        · rw [Scope.First.cons_iff_of_eligible heligible]
        · have hnot : ∀ r, ¬ c.scope.Eligible rows source equality r :=
            fun _ hfirst => hfirst.not_swapped heligible
          rw [Scope.First.cons_iff_of_ineligible hnot,
            Scope.First.cons_iff_of_eligible heligible]

theorem isIndexed_considerAll {c : Context σ} {equalities : List (Expr × Expr)}
    (hcandidate : candidate ∈ Expr.orientations equalities)
    (h : c.scope.Eligible rows source candidate r) :
    (considerAll rows c equalities).isIndexed (.path (.root source)) = true := by
  rw [isIndexed, Option.isSome_iff_exists]
  rcases hkept : c.registration? (.path (.root source)) with _ | kept
  · obtain ⟨first, hfirst⟩ := Scope.exists_first_iff.mpr ⟨candidate, hcandidate, r, h⟩
    exact ⟨first, (registration?_considerAll equalities hkept).mpr hfirst⟩
  · obtain ⟨added, hgains, -⟩ := considerAll_gains rows c equalities
    exact ⟨kept, hgains.registration? hkept⟩

end Context

namespace ContextTree

variable {collections : String → Except Error (List Row)}

theorem Upholds.discover_of_recovered {t : ContextTree σ}
    (ht : t.Upholds scope (Session.Recovered scope.source collections))
    (given : ∀ name ∈ rootNames scope.sources, ∃ found, collections name = .ok found)
    (h : t.Handle) (condition : Expr) :
    ∃ n s', Extension.discover condition (t.contexts.get h, t.session) =
      (.ok n, Context.considerAll (Source.rowsIn collections) (t.contexts.get h)
        (condition.equalities scope.registry), s') := by
  have hscope : (t.contexts.get h).scope = scope := ht.scope_handle h
  subst scope
  obtain ⟨n, s', hrun, -⟩ := Extension.discover_settled condition (ht.session.settled given)
    (t.contexts.get h).scope.within_rootNames
  exact ⟨n, s', hrun⟩

/-- Where no pass fails any more, discovery succeeds in every context, whatever that has registered
and whatever is kept. It considers the equalities that the condition reaches through conjunctions,
and a source without a registration gets the one that the first eligible candidate leads to. -/
theorem discover_registers {start : σ}
    (discloses : scope.source.Discloses collections start)
    (given : ∀ name ∈ rootNames scope.sources, ∃ found, collections name = .ok found)
    (actions : List Action) (h : ((ofScope scope start).afterAll actions).Handle)
    (serves : scope.source.Serves collections
      ((ofScope scope start).afterAll actions).session.source) (condition : Expr) :
    let t := (ofScope scope start).afterAll actions
    let c := t.contexts.get h
    let rows := Source.rowsIn collections
    let equalities := condition.equalities scope.registry
    (∀ left right, (left, right) ∈ equalities ↔ ∃ found,
      Expr.Reaches scope.registry condition found ∧
        Expr.IsEquality scope.registry left right found) ∧
    Extension.discover condition (c, t.session) = Extension.pinAll equalities (c, t.session) ∧
    ∃ added c' t', t.discover h condition = (.ok added.length, t') ∧
      t'.contexts = t.contexts.set h c' ∧ c.Gains added c' ∧
      (∀ source, c.registration? (.path (.root source)) = none →
        (∀ r, c'.registration? (.path (.root source)) = some r ↔
          scope.First rows source (Expr.orientations equalities) r) ∧
        (c'.isIndexed (.path (.root source)) = true ↔
          ∃ candidate ∈ Expr.orientations equalities, ∃ r,
            scope.Eligible rows source candidate r)) ∧
      ∀ entry ∈ added, ∃ source slot, rootSlot? scope.sources source = some slot ∧
        scope.sources[slot]? = some entry.1 ∧ entry.2.path.rootName = source ∧
          ∀ d ∈ entry.2.key.dependencies,
            d < slot ∨ ∃ name, scope.sources[d]? = some (.param name) := by
  intro t c rows equalities
  have ht : t.Upholds scope (Session.Recovered scope.source collections) :=
    recovered_afterAll discloses actions serves
  have hscope : c.scope = scope := ht.scope_handle h
  have hwalk : Extension.discover condition (c, t.session) =
      Extension.pinAll equalities (c, t.session) := by
    rw [Extension.discover_eq_pinAll, hscope]
  obtain ⟨n, s', hrun⟩ := ht.discover_of_recovered given h condition
  obtain ⟨added, hgains, hadded⟩ := Context.considerAll_gains rows c equalities
  -- What the walk counts is what the equalities add, since a context gains in one way only.
  have hn : n = added.length := by
    obtain ⟨others, hothers, -, hcount, -⟩ := Extension.pinAll_gains (hwalk.symm.trans hrun)
    rw [hcount n rfl, hothers.unique hgains]
  subst hn
  refine ⟨fun left right => Expr.mem_equalities_iff left right condition, hwalk, added, _, _,
    extend_of_run hrun, rfl, hgains, ?_, ?_⟩
  · intro source hnew
    have hfirst : ∀ r, (Context.considerAll rows c equalities).registration?
        (.path (.root source)) = some r ↔
          scope.First rows source (Expr.orientations equalities) r := by
      intro r
      rw [Context.registration?_considerAll equalities hnew, hscope]
    refine ⟨hfirst, ?_⟩
    rw [Context.isIndexed, Option.isSome_iff_exists, exists_congr hfirst]
    exact Scope.exists_first_iff
  · intro entry hentry
    obtain ⟨source, hroot, candidate, -, heligible⟩ := hadded entry hentry
    rw [hscope] at heligible
    obtain ⟨slot, hslot, hpath, hdependencies⟩ := heligible.dependencies
    exact ⟨source, slot, hslot, hroot ▸ getElem?_of_rootSlot? hslot, hpath, hdependencies⟩

theorem discover_petsOf :
    let t := ofScope petScope ()
    ∃ n c' t', t.discover ⟨0, by decide⟩ petsOf = (.ok n, t') ∧
      t'.contexts = [c'] ∧
      c'.registration? (.path (.root "owner")) =
        some ⟨.field "owner" "id" 0, .bound (.param 2) [2]⟩ ∧
      c'.registration? (.path (.root "pet")) =
        some ⟨.field "pet" "owner" 0, .bound (.field 1 0) [1]⟩ := by
  intro t
  have serves : petScope.source.Serves Runner.petShop.rows () := Runner.petShop.source_serves
  obtain ⟨-, -, added, c', t', hdiscover, hcontexts, -, hregistered, -⟩ :=
    discover_registers serves.discloses (Runner.petShop.exists_rows (by decide)) [] ⟨0, by decide⟩
      serves petsOf
  refine ⟨added.length, c', t', hdiscover, hcontexts, ?_, ?_⟩
  · apply ((hregistered "owner" rfl).1 _).mpr
    apply Scope.First.later (by rintro _ ⟨⟩)
    have hslot : rootSlot? petScope.sources "owner" = some 1 := rfl
    refine .here (.intro hslot ?_ rfl ?_)
    · decide
    · exact Row.allHave_iff.mp rfl
  · apply ((hregistered "pet" rfl).1 _).mpr
    have hother : ∀ r, ¬ petScope.Eligible (Source.rowsIn Runner.petShop.rows) "pet"
        (.path (.field "owner" "id" 0), .param "id") r := by
      intro r h
      obtain ⟨name, k, htarget⟩ := h.target_eq
      simp at htarget
    apply Scope.First.later (by rintro _ ⟨⟩)
    apply Scope.First.later hother
    have hslot : rootSlot? petScope.sources "pet" = some 3 := rfl
    refine .here (.intro hslot ?_ rfl ?_)
    · decide
    · exact Row.allHave_iff.mp rfl

end ContextTree

end IndexedQuery
