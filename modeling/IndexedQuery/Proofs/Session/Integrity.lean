import IndexedQuery.Proofs.Session.Persistence
import Mathlib.Data.List.Nodup

namespace IndexedQuery

variable {σ : Type} {rows : String → List Row} {names : List String}

namespace Cache

/-- Every kept index is on a field path and groups all rows of the collection by that field. -/
def Sound (rows : String → List Row) (cache : PathCache) : Prop :=
  ∀ entry ∈ cache.entries, ∃ collection name k,
    entry.1 = .field collection name k ∧ Row.allHave k (rows collection) = true ∧
      entry.2 = .byField k (rows collection)

theorem sound_empty : Sound rows empty := by
  simp [Sound, empty]

theorem Sound.of_get? {cache : PathCache} {collection name : String} {k : Nat}
    {index : Index Value Row} (h : Sound rows cache)
    (hget : cache.get? (.field collection name k) = some index) :
    Row.allHave k (rows collection) = true ∧ index = .byField k (rows collection) := by
  obtain ⟨_, _, _, hpath, hall, hindex⟩ := h _ (get?_mem hget)
  cases hpath
  exact ⟨hall, hindex⟩

theorem Sound.groupsBy {cache : PathCache} (h : Sound rows cache) {entry : Path × Index Value Row}
    (hentry : entry ∈ cache.entries) :
    ∃ collection name k,
      entry.1 = .field collection name k ∧ entry.2.GroupsBy k (rows collection) := by
  obtain ⟨collection, name, k, hpath, hall, hindex⟩ := h entry hentry
  exact ⟨collection, name, k, hpath, hindex ▸ Index.groupsBy_byField hall⟩

theorem Sound.keep {cache : PathCache} {collection name : String} {k : Nat}
    (h : Sound rows cache) (hall : Row.allHave k (rows collection) = true) :
    Sound rows
      (cache.keep (.field collection name k) (.byField k (rows collection))).2 := by
  rcases hget : cache.get? (.field collection name k) with _ | kept
  · rw [keep_of_absent hget]
    intro entry hentry
    rcases List.mem_append.mp hentry with hentry | hentry
    · exact h entry hentry
    · rw [List.mem_singleton] at hentry
      subst entry
      exact ⟨collection, name, k, rfl, hall, rfl⟩
  · simpa [Cache.keep, hget] using h

/-- As many builds are counted as indexes are kept, and no path has two of them. -/
structure Tallied (cache : PathCache) : Prop where
  builds_eq : cache.builds = cache.size
  nodup : cache.paths.Nodup

theorem tallied_empty : Tallied empty :=
  ⟨rfl, .nil⟩

theorem tallied_iff {cache : PathCache} : Tallied cache ↔ Counted cache := by
  constructor
  · intro h
    exact ⟨h.builds_eq, h.nodup.imp fun hne => beq_eq_false_iff_ne.mpr hne⟩
  · intro h
    exact ⟨h.builds_eq, h.distinct.imp fun hne => beq_eq_false_iff_ne.mp hne⟩

theorem Tallied.keep {cache : PathCache} (h : Tallied cache) (path : Path)
    (index : Index Value Row) : Tallied (cache.keep path index).2 :=
  tallied_iff.mpr ((tallied_iff.mp h).keep path index)

end Cache

theorem Path.indexOf_eq_ok {path : Path} {k : Nat} {answer : Except Error Pass}
    {index : Index Value Row} (h : path.indexOf k answer = .ok index) :
    ∃ found : List Row, answer = .ok (found.map .ok) ∧ Row.allHave k found = true ∧
      index = .byField k found := by
  rcases answer with e | pass
  · cases h
  · obtain ⟨found, rfl, hall, hindex⟩ := Index.eq_byField_of_build h
    exact ⟨found, rfl, hall, hindex⟩

namespace Session

/-- The source never hides a failure, and the cache is sound. -/
structure Intact (source : Source σ) (rows : String → List Row) (s : Session σ) : Prop where
  honest : source.Honest rows s.source
  sound : s.cache.Sound rows

/-- The source gives the named collections completely from now on, and the cache is sound. -/
structure Settled (source : Source σ) (rows : String → List Row) (names : List String)
    (s : Session σ) : Prop where
  yields : source.Yields rows names s.source
  sound : s.cache.Sound rows

variable {source : Source σ} {s : Session σ}

theorem intact_persistent (source : Source σ) (rows : String → List Row) :
    Persistent source (Intact source rows) where
  log h log := ⟨h.honest, h.sound⟩
  afterPass h name := ⟨h.honest.pass name, h.sound⟩
  keeping h _ hindex := by
    obtain ⟨found, hfound, hall, rfl⟩ := Path.indexOf_eq_ok hindex
    have hcomplete := h.honest.complete hfound
    subst found
    exact ⟨h.honest.pass _, h.sound.keep hall⟩

theorem tallied_persistent (source : Source σ) : Persistent source fun s => s.cache.Tallied where
  log h _ := h
  afterPass h _ := h
  keeping h _ _ := h.keep _ _

theorem kept_persistent (source : Source σ) (path : Path) (index : Index Value Row) :
    Persistent source fun s => s.cache.get? path = some index where
  log h _ := h
  afterPass h _ := h
  keeping h _ _ := Cache.get?_keep h

theorem settled_start {start : σ} (h : source.Yields rows names start) :
    (Session.start start).Settled source rows names :=
  ⟨h, Cache.sound_empty⟩

theorem Settled.log (h : s.Settled source rows names) (log : List Event) :
    Settled source rows names { s with log } :=
  ⟨h.yields, h.sound⟩

theorem Settled.afterPass (h : s.Settled source rows names) {name : String}
    (hname : name ∈ names) : (s.afterPass source name).Settled source rows names :=
  ⟨h.yields.pass hname, h.sound⟩

end Session

namespace Context

variable {c : Context σ} {s : Session σ} {collection name : String} {k : Nat}

/-- Whatever index is built or kept, it groups the whole collection. -/
theorem eq_byField_of_buildIndex (hs : s.Intact c.scope.source rows) {index : Index Value Row}
    (h : (c.buildIndex (.field collection name k) s).1 = .ok index) :
    Row.allHave k (rows collection) = true ∧ index = .byField k (rows collection) := by
  rcases hkept : s.cache.get? (.field collection name k) with _ | kept
  · rw [buildIndex_field hkept] at h
    rcases hindex : (Path.field collection name k).indexOf k
        (c.scope.source.pass s.source collection).1 with e | built
    · rw [hindex] at h
      cases h
    · obtain ⟨found, hfound, hall, hbuilt⟩ := Path.indexOf_eq_ok hindex
      have hcomplete := hs.honest.complete hfound
      subst found
      rw [hindex] at h
      cases h
      exact ⟨hall, hbuilt⟩
  · rw [buildIndex_of_kept hkept] at h
    cases h
    exact hs.sound.of_get? hkept

theorem indexOf_complete (hall : Row.allHave k (rows collection) = true) :
    (Path.field collection name k).indexOf k (.ok ((rows collection).map .ok)) =
      .ok (.byField k (rows collection)) :=
  Index.build_byField hall

theorem buildIndex_of_complete
    (hpass : (c.scope.source.pass s.source collection).1 = .ok ((rows collection).map .ok))
    (hall : Row.allHave k (rows collection) = true) :
    ∃ index, (c.buildIndex (.field collection name k) s).1 = .ok index := by
  rcases hkept : s.cache.get? (.field collection name k) with _ | index
  · rw [buildIndex_field hkept, hpass, indexOf_complete hall]
    exact ⟨_, rfl⟩
  · rw [buildIndex_of_kept hkept]
    exact ⟨_, rfl⟩

theorem buildIndex_of_short (hkept : s.cache.get? (.field collection name k) = none)
    (hpass : (c.scope.source.pass s.source collection).1 = .ok ((rows collection).map .ok))
    (hall : Row.allHave k (rows collection) = false) :
    ∃ row ∈ rows collection, row.values.length ≤ k ∧
      c.buildIndex (.field collection name k) s =
        (.error (.indexKey (Path.field collection name k).text
          (.fieldOutOfRange k row.values.length)), s.afterPass c.scope.source collection) := by
  obtain ⟨row, hrow, hshort, hbuild⟩ := Index.build_byField_error
    (.indexKey (Path.field collection name k).text) hall
  have hindex : (Path.field collection name k).indexOf k
      (.ok ((rows collection).map .ok)) = _ := hbuild
  refine ⟨row, hrow, hshort, ?_⟩
  rw [buildIndex_field hkept, hpass, hindex]

theorem buildIndex_settled (name : String) (hs : s.Settled c.scope.source rows names)
    (hname : collection ∈ names) (hall : Row.allHave k (rows collection) = true) :
    ∃ s', c.buildIndex (.field collection name k) s = (.ok (.byField k (rows collection)), s') ∧
      s'.Settled c.scope.source rows names := by
  rcases hkept : s.cache.get? (.field collection name k) with _ | index
  · rw [buildIndex_field hkept, hs.yields.complete hname, indexOf_complete hall]
    have hpass := hs.afterPass hname
    exact ⟨_, rfl, hpass.yields, hpass.sound.keep hall⟩
  · rw [buildIndex_of_kept hkept, (hs.sound.of_get? hkept).2]
    exact ⟨_, rfl, hs.log _⟩

theorem buildIndex_settled_of_short (name : String) (hs : s.Settled c.scope.source rows names)
    (hname : collection ∈ names) (hall : Row.allHave k (rows collection) = false) :
    ∃ text cause s', c.buildIndex (.field collection name k) s =
        (.error (.indexKey text cause), s') ∧ s'.Settled c.scope.source rows names := by
  rcases hkept : s.cache.get? (.field collection name k) with _ | index
  · obtain ⟨row, -, -, hbuild⟩ := buildIndex_of_short hkept (hs.yields.complete hname) hall
    exact ⟨_, _, _, hbuild, hs.afterPass hname⟩
  · rw [(hs.sound.of_get? hkept).1] at hall
    cases hall

end Context

end IndexedQuery
