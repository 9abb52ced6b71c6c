import IndexedQuery.Proofs.Session.Integrity

/-!
What a session gains while it goes on, whatever its source does. An index is kept only if a pass
that was made gave its whole collection; each is counted once, and nothing else is kept or lost.
-/

namespace IndexedQuery

variable {σ : Type} {source : Source σ} {state : σ} {passed : List String}
  {added : List (Path × Index Value Row)}

/-- Among the passes that were made one showed no failure, and the index of the entry groups what it
gave. -/
inductive Source.Completes (source : Source σ) (state : σ) (passed : List String) :
    Path × Index Value Row → Prop where
  | intro {earlier later : List String} {collection name : String} {k : Nat} {found : List Row}
      {index : Index Value Row} (passed_eq : passed = earlier ++ collection :: later)
      (answer : (source.pass (source.after state earlier) collection).1 = .ok (found.map .ok))
      (groups : index.GroupsBy k found) :
      Completes source state passed (.field collection name k, index)

theorem Source.Completes.mono {entry : Path × Index Value Row}
    (h : source.Completes state passed entry) (more : List String) :
    source.Completes state (passed ++ more) entry := by
  rcases h with @⟨earlier, later, collection, _, _, _, _, rfl, answer, groups⟩
  have hpassed : earlier ++ collection :: later ++ more =
      earlier ++ collection :: (later ++ more) := by simp
  exact .intro hpassed answer groups

theorem Source.Completes.later {more : List String} {entry : Path × Index Value Row}
    (h : source.Completes (source.after state passed) more entry) :
    source.Completes state (passed ++ more) entry := by
  rcases h with @⟨earlier, later, collection, _, _, _, _, rfl, answer, groups⟩
  rw [← source.after_append] at answer
  exact .intro (List.append_assoc passed earlier (collection :: later)).symm answer groups

theorem Source.after_append_singleton (source : Source σ) (state : σ) (passed : List String)
    (name : String) :
    source.after state (passed ++ [name]) = (source.pass (source.after state passed) name).2 := by
  simp [after]

/-- The indexes that were freshly built are kept after those there were, and are as many as builds
were counted. -/
structure Session.Accrues (source : Source σ) (s : Session σ) (passed : List String)
    (added : List (Path × Index Value Row)) (s' : Session σ) : Prop where
  source_eq : s'.source = source.after s.source passed
  passes_eq : s'.passes = passed.reverse ++ s.passes
  entries_eq : s'.cache.entries = s.cache.entries ++ added
  builds_eq : s'.cache.builds = s.cache.builds + added.length
  fresh : ∀ entry ∈ added, s.cache.get? entry.1 = none
  complete : ∀ entry ∈ added, source.Completes s.source passed entry

namespace Session

variable {s s' : Session σ}

theorem Accrues.nothing (source : Source σ) (s : Session σ) : s.Accrues source [] [] s :=
  ⟨rfl, rfl, by simp, rfl, by simp, by simp⟩

theorem Accrues.log (h : s.Accrues source passed added s') (log : List Event) :
    s.Accrues source passed added { s' with log } :=
  ⟨h.source_eq, h.passes_eq, h.entries_eq, h.builds_eq, h.fresh, h.complete⟩

theorem Accrues.afterPass (h : s.Accrues source passed added s') (name : String) :
    s.Accrues source (passed ++ [name]) added (s'.afterPass source name) where
  source_eq := by
    rw [source.after_append_singleton, ← h.source_eq]
    rfl
  passes_eq := by
    simp [Session.afterPass, h.passes_eq]
  entries_eq := h.entries_eq
  builds_eq := h.builds_eq
  fresh := h.fresh
  complete entry hentry := (h.complete entry hentry).mono [name]

theorem Accrues.get?_eq_none (h : s.Accrues source passed added s') {path : Path}
    (habsent : s'.cache.get? path = none) : s.cache.get? path = none := by
  rw [Cache.get?, h.entries_eq, List.find?_append, Option.map_eq_none_iff,
    Option.or_eq_none_iff] at habsent
  rw [Cache.get?, habsent.1]
  rfl

theorem Accrues.keeping (h : s.Accrues source passed added s') {collection name : String} {k : Nat}
    {index : Index Value Row} (habsent : s'.cache.get? (.field collection name k) = none)
    (hindex : (Path.field collection name k).indexOf k
      (source.pass s'.source collection).1 = .ok index) :
    s.Accrues source (passed ++ [collection]) (added ++ [(.field collection name k, index)])
      ((s'.afterPass source collection).keeping (.field collection name k) index) := by
  have hpass := h.afterPass collection
  have hcache : ((s'.afterPass source collection).keeping (.field collection name k) index).cache =
      ⟨s'.cache.entries ++ [(.field collection name k, index)], s'.cache.builds + 1⟩ :=
    congrArg Prod.snd (Cache.keep_of_absent habsent)
  obtain ⟨found, hfound, hall, rfl⟩ := Path.indexOf_eq_ok hindex
  rw [h.source_eq] at hfound
  refine ⟨hpass.source_eq, hpass.passes_eq, ?_, ?_, ?_, ?_⟩
  · simp [hcache, h.entries_eq]
  · simp [hcache, h.builds_eq, Nat.add_assoc]
  · exact List.forall_mem_append.mpr ⟨h.fresh, by simpa using h.get?_eq_none habsent⟩
  · refine List.forall_mem_append.mpr ⟨hpass.complete, ?_⟩
    rw [List.forall_mem_singleton]
    exact .intro rfl hfound (Index.groupsBy_byField hall)

theorem Accrues.trans {s'' : Session σ} {later : List String}
    {more : List (Path × Index Value Row)} (h : s.Accrues source passed added s')
    (h' : s'.Accrues source later more s'') :
    s.Accrues source (passed ++ later) (added ++ more) s'' where
  source_eq := by
    rw [h'.source_eq, h.source_eq, source.after_append]
  passes_eq := by
    simp [h'.passes_eq, h.passes_eq]
  entries_eq := by
    rw [h'.entries_eq, h.entries_eq, List.append_assoc]
  builds_eq := by
    rw [h'.builds_eq, h.builds_eq, List.length_append, Nat.add_assoc]
  fresh := List.forall_mem_append.mpr
    ⟨h.fresh, fun entry hentry => h.get?_eq_none (h'.fresh entry hentry)⟩
  complete := by
    refine List.forall_mem_append.mpr ⟨fun entry hentry => ?_, fun entry hentry => ?_⟩
    · exact (h.complete entry hentry).mono later
    · have hcomplete := h'.complete entry hentry
      rw [h.source_eq] at hcomplete
      exact hcomplete.later

end Session

end IndexedQuery
