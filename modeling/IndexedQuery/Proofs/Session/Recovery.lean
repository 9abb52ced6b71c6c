import IndexedQuery.Proofs.Session.Integrity

namespace IndexedQuery

variable {σ : Type} {collections : String → Except Error (List Row)}

/-- Every kept index is the one that a complete pass over its collection leads to. -/
def Cache.Current (collections : String → Except Error (List Row)) (cache : PathCache) : Prop :=
  ∀ entry ∈ cache.entries, ∃ collection name k, entry.1 = .field collection name k ∧
    (Path.field collection name k).indexOf k ((collections collection).map (·.map .ok)) =
      .ok entry.2

theorem Cache.Current.keep {cache : PathCache} {collection name : String} {k : Nat}
    {index : Index Value Row} (h : cache.Current collections)
    (habsent : cache.get? (.field collection name k) = none)
    (hindex : (Path.field collection name k).indexOf k
      ((collections collection).map (·.map .ok)) = .ok index) :
    (cache.keep (.field collection name k) index).2.Current collections := by
  rw [keep_of_absent habsent]
  intro entry hentry
  rcases List.mem_append.mp hentry with hentry | hentry
  · exact h entry hentry
  · rw [List.mem_singleton.mp hentry]
    exact ⟨collection, name, k, rfl, hindex⟩

theorem Cache.Current.sound {cache : PathCache} (h : cache.Current collections) :
    cache.Sound (Source.rowsIn collections) := by
  intro entry hentry
  obtain ⟨collection, name, k, hpath, hindex⟩ := h entry hentry
  obtain ⟨found, hfound, hall, hentry⟩ := Path.indexOf_eq_ok hindex
  have hrows := Source.rowsIn_of_ok (Source.eq_ok_of_map_ok hfound)
  refine ⟨collection, name, k, hpath, ?_, ?_⟩ <;> rwa [hrows]

namespace Session

/-- The source never hides a failure, and the cache is up to date. -/
structure Current (source : Source σ) (collections : String → Except Error (List Row))
    (s : Session σ) : Prop where
  discloses : source.Discloses collections s.source
  cache : s.cache.Current collections

/-- The source gives all collections completely from now on, and the cache is up to date. -/
structure Recovered (source : Source σ) (collections : String → Except Error (List Row))
    (s : Session σ) : Prop where
  serves : source.Serves collections s.source
  cache : s.cache.Current collections

variable {source : Source σ}

theorem current_start {start : σ} (h : source.Discloses collections start) :
    (Session.start start).Current source collections :=
  ⟨h, by simp [Session.start, Cache.Current, Cache.empty]⟩

theorem Recovered.current {s : Session σ} (h : s.Recovered source collections) :
    s.Current source collections :=
  ⟨h.serves.discloses, h.cache⟩

theorem Recovered.settled {names : List String} {s : Session σ}
    (h : s.Recovered source collections)
    (hnames : ∀ name ∈ names, ∃ found, collections name = .ok found) :
    s.Settled source (Source.rowsIn collections) names :=
  ⟨h.serves.yields hnames, h.cache.sound⟩

theorem current_persistent (source : Source σ)
    (collections : String → Except Error (List Row)) :
    Persistent source (Current source collections) where
  log h _ := ⟨h.discloses, h.cache⟩
  afterPass h name := ⟨h.discloses.pass name, h.cache⟩
  keeping {s collection name k index} h habsent hindex := by
    -- The pass that led to the index was complete, so any later one would lead to it too.
    obtain ⟨found, hfound, -, -⟩ := Path.indexOf_eq_ok hindex
    have hcollection := h.discloses.complete hfound
    refine ⟨h.discloses.pass collection, h.cache.keep habsent ?_⟩
    rw [hcollection]
    rwa [hfound] at hindex

theorem recovered_persistent (source : Source σ)
    (collections : String → Except Error (List Row)) :
    Persistent source (Recovered source collections) where
  log h _ := ⟨h.serves, h.cache⟩
  afterPass h name := ⟨h.serves.pass name, h.cache⟩
  keeping h habsent hindex :=
    ⟨h.serves.pass _,
      ((current_persistent source collections).keeping h.current habsent hindex).cache⟩

end Session

namespace Context

variable {c : Context σ} {s : Session σ}

theorem buildIndex_of_recovered (hs : s.Recovered c.scope.source collections) (path : Path) :
    (c.buildIndex path s).1 =
      match path with
      | .root name => .error (.notAValue name)
      | .field collection name k =>
          (Path.field collection name k).indexOf k ((collections collection).map (·.map .ok)) := by
  rcases hkept : s.cache.get? path with _ | index
  · cases path with
    | root name => rw [buildIndex_root hkept]
    | field collection name k =>
        rw [buildIndex_field hkept, hs.serves.answer]
        dsimp only
        split
        · rename_i e he
          exact he.symm
        · rename_i index hindex
          exact hindex.symm
  · obtain ⟨collection, name, k, hpath, hindex⟩ := hs.cache _ (Cache.get?_mem hkept)
    dsimp only at hpath
    subst path
    rw [buildIndex_of_kept hkept]
    exact hindex.symm

end Context

theorem Session.recovered_bisimulation (source : Source σ)
    (collections : String → Except Error (List Row)) :
    Bisimulation source fun s s' =>
      s.Recovered source collections ∧ s'.Recovered source collections := by
  apply (recovered_persistent source collections).bisimulation_of_answers
  · intro name s s' hs hs'
    rw [hs.serves.answer, hs'.serves.answer]
  · rintro c rfl path s s' hs hs'
    rw [Context.buildIndex_of_recovered hs, Context.buildIndex_of_recovered hs']

end IndexedQuery
