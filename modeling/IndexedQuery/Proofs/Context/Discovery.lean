import IndexedQuery.Proofs.Context.Walk

namespace IndexedQuery

variable {σ : Type} {rows : String → List Row} {names : List String}

def Scope.Within (scope : Scope σ) (names : List String) : Prop :=
  ∀ source slot, rootSlot? scope.sources source = some slot → source ∈ names

theorem Scope.within_rootNames (scope : Scope σ) : scope.Within (rootNames scope.sources) :=
  fun _ _ hslot => mem_rootNames (getElem?_of_rootSlot? hslot)

namespace Context

/-- The registration that an equality of a target and a key leads to, if there is one. -/
def pinned? (c : Context σ) (rows : String → List Row) (target key : Expr) :
    Option (Expr × Registration) :=
  match c.assess target key with
  | .eligible (.field source name k) evaluator =>
      if Row.allHave k (rows source) then
        some (.path (.root source), ⟨.field source name k, evaluator⟩)
      else none
  | _ => none

def extended (c : Context σ) (added? : Option (Expr × Registration)) : Context σ :=
  { c with registrations := c.registrations ++ added?.toList }

/-- The context after an equality was considered in both orientations. The second one counts only
where the first leads to nothing. -/
def consider (rows : String → List Row) (c : Context σ) (equality : Expr × Expr) : Context σ :=
  c.extended <| (c.pinned? rows equality.1 equality.2).or (c.pinned? rows equality.2 equality.1)

def considerAll (rows : String → List Row) (c : Context σ) (equalities : List (Expr × Expr)) :
    Context σ :=
  equalities.foldl (consider rows) c

def specialized (rows : String → List Row) (c : Context σ) : Option Expr → Context σ
  | none => c
  | some condition =>
      if c.scope.config.enabled && condition.isOperation then
        considerAll rows (.ofScope c.scope) (condition.equalities c.scope.registry)
      else .ofScope c.scope

@[simp] theorem extended_none (c : Context σ) : c.extended none = c := by
  simp [extended]

@[simp] theorem scope_considerAll (rows : String → List Row) (c : Context σ)
    (equalities : List (Expr × Expr)) :
    (considerAll rows c equalities).scope = c.scope := by
  induction equalities generalizing c with
  | nil => rfl
  | cons equality equalities ih => exact ih (consider rows c equality)

theorem forall_considerAll {c : Context σ} {p : Expr × Registration → Prop}
    {equalities : List (Expr × Expr)} (hc : ∀ entry ∈ c.registrations, p entry)
    (hpin : ∀ c' : Context σ, c'.scope = c.scope → ∀ target key,
      ((target, key) ∈ equalities ∨ (key, target) ∈ equalities) →
        ∀ entry, c'.pinned? rows target key = some entry → p entry) :
    ∀ entry ∈ (considerAll rows c equalities).registrations, p entry := by
  induction equalities generalizing c with
  | nil => exact hc
  | cons equality equalities ih =>
      refine ih (c := consider rows c equality) ?_ fun c' hscope target key hmem =>
        hpin c' hscope target key (hmem.imp (.tail equality) (.tail equality))
      intro entry hentry
      rcases List.mem_append.mp hentry with hentry | hentry
      · exact hc entry hentry
      · rcases Option.or_eq_some_iff.mp (Option.mem_toList.mp hentry) with hfirst | ⟨-, hsecond⟩
        · exact hpin c rfl _ _ (.inl (.head equalities)) entry hfirst
        · exact hpin c rfl _ _ (.inr (.head equalities)) entry hsecond

@[simp] theorem scope_specialized (c : Context σ) (condition? : Option Expr) :
    (c.specialized rows condition?).scope = c.scope := by
  cases condition? with
  | none => rfl
  | some condition =>
      simp only [specialized]
      split
      · exact scope_considerAll rows (.ofScope c.scope) _
      · rfl

end Context

namespace Extension

variable {c : Context σ} {s : Session σ}

theorem pin_settled (hs : s.Settled c.scope.source rows names) (hwithin : c.scope.Within names)
    (target key : Expr) :
    ∃ s', pin target key (c, s) =
        (.ok (c.pinned? rows target key).isSome, c.extended (c.pinned? rows target key), s') ∧
      s'.Settled c.scope.source rows names := by
  rcases hassess : c.assess target key with _ | reason | ⟨path, evaluator⟩
  · have hnone : c.pinned? rows target key = none := by
      simp [Context.pinned?, hassess]
    rw [hnone, Context.extended_none, pin_of_unsuitable hassess]
    exact ⟨s, rfl, hs⟩
  · have hnone : c.pinned? rows target key = none := by
      simp [Context.pinned?, hassess]
    rw [hnone, Context.extended_none, pin_of_rejected hassess]
    exact ⟨_, rfl, hs.log _⟩
  · obtain ⟨source, name, k, slot, rfl, rfl, hslot, hnew, -, -⟩ :=
      Context.assess_eq_eligible hassess
    have hname := hwithin source slot hslot
    rcases hall : Row.allHave k (rows source) with _ | _
    · have hnone : c.pinned? rows (.path (.field source name k)) key = none := by
        simp [Context.pinned?, hassess, hall]
      obtain ⟨text, cause, s', hbuild, hs'⟩ := c.buildIndex_settled_of_short name
        hs hname hall
      rw [hnone, Context.extended_none, pin_of_key_error hassess hbuild]
      exact ⟨_, rfl, hs'.log _⟩
    · have hsome : c.pinned? rows (.path (.field source name k)) key =
          some (.path (.root source), ⟨.field source name k, evaluator⟩) := by
        simp [Context.pinned?, hassess, hall]
      obtain ⟨s', hbuild, hs'⟩ := c.buildIndex_settled name hs hname hall
      rw [hsome, pin_of_built hassess hbuild, Path.toRoot, Path.rootName, register_of_new _ hnew]
      exact ⟨_, rfl, hs'.log _⟩

theorem pinEither_settled (hs : s.Settled c.scope.source rows names)
    (hwithin : c.scope.Within names) (equality : Expr × Expr) :
    ∃ n s', pinEither equality (c, s) = (.ok n, Context.consider rows c equality, s') ∧
      s'.Settled c.scope.source rows names := by
  obtain ⟨left, right⟩ := equality
  obtain ⟨s', hfirst, hs'⟩ := pin_settled hs hwithin left right
  rw [pinEither, bind_of_ok hfirst, Context.consider]
  rcases hpin : c.pinned? rows left right with _ | entry
  · obtain ⟨s'', hsecond, hs''⟩ := pin_settled hs' hwithin right left
    rw [Context.extended_none, Option.none_or]
    simp only [Option.isSome_none, Bool.false_eq_true, if_false]
    rw [bind_of_ok hsecond]
    rcases hflip : c.pinned? rows right left with _ | entry
    · exact ⟨0, s'', rfl, hs''⟩
    · exact ⟨1, s'', rfl, hs''⟩
  · exact ⟨1, s', rfl, hs'⟩

theorem pinAll_settled (equalities : List (Expr × Expr)) {c : Context σ} {s : Session σ}
    (hs : s.Settled c.scope.source rows names) (hwithin : c.scope.Within names) :
    ∃ n s', pinAll equalities (c, s) = (.ok n, Context.considerAll rows c equalities, s') ∧
      s'.Settled c.scope.source rows names := by
  induction equalities generalizing c s with
  | nil => exact ⟨0, s, rfl, hs⟩
  | cons equality equalities ih =>
      obtain ⟨n, s', hfirst, hs'⟩ := pinEither_settled hs hwithin equality
      obtain ⟨m, s'', hrest, hs''⟩ := ih (c := Context.consider rows c equality) hs' hwithin
      refine ⟨n + m, s'', ?_, hs''⟩
      rw [pinAll, bind_of_ok hfirst, bind_of_ok hrest]
      rfl

theorem discover_settled (e : Expr) {c : Context σ} {s : Session σ}
    (hs : s.Settled c.scope.source rows names) (hwithin : c.scope.Within names) :
    ∃ n s', discover e (c, s) =
        (.ok n, Context.considerAll rows c (e.equalities c.scope.registry), s') ∧
      s'.Settled c.scope.source rows names := by
  rw [discover_eq_pinAll]
  exact pinAll_settled _ hs hwithin

end Extension

/-- A context is specialized to the same one in every session that has come this far, and never
without success. -/
theorem Context.specialize_settled {c : Context σ} {s : Session σ}
    (hs : s.Settled c.scope.source rows names) (hwithin : c.scope.Within names)
    (condition? : Option Expr) :
    ∃ s', c.specialize condition? s = (.ok (c.specialized rows condition?), s') ∧
      s'.Settled c.scope.source rows names := by
  cases condition? with
  | none => exact ⟨s, rfl, hs⟩
  | some condition =>
      rcases hsearch : c.scope.config.enabled && condition.isOperation with _ | _
      · rw [specialize_of_unsearched hsearch]
        refine ⟨s, ?_, hs⟩
        simp [specialized, hsearch]
      · obtain ⟨n, s', hdiscover, hs'⟩ :=
          Extension.discover_settled condition (c := .ofScope c.scope) hs hwithin
        have hchild : c.specialized rows (some condition) =
            considerAll rows (.ofScope c.scope) (condition.equalities c.scope.registry) := by
          simp only [specialized, hsearch, if_true]
        rw [specialize_of_discovered hsearch hdiscover, hchild]
        exact ⟨_, rfl, hs'.log _⟩

end IndexedQuery
