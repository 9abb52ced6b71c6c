import IndexedQuery.Context
import IndexedQuery.Proofs.Index.FieldIndex
import IndexedQuery.Proofs.Index.Keeping
import IndexedQuery.Proofs.Session.Run
import IndexedQuery.Proofs.Source.Completeness

namespace IndexedQuery

variable {σ : Type}

namespace Session

def afterPass (source : Source σ) (name : String) (s : Session σ) : Session σ :=
  { s with source := (source.pass s.source name).2, passes := name :: s.passes }

/-- The session that keeps a freshly built index. -/
def keeping (path : Path) (index : Index Value Row) (s : Session σ) : Session σ :=
  { s with
    cache := (s.cache.keep path index).2
    log := .builtIndex path index.size index.keyCount :: s.log }

end Session

namespace Cache

theorem get?_mem {cache : PathCache} {path : Path} {index : Index Value Row}
    (h : cache.get? path = some index) : (path, index) ∈ cache.entries := by
  obtain ⟨entry, hentry, rfl⟩ := Option.map_eq_some_iff.mp h
  have hpath : entry.1 = path := by simpa using List.find?_some hentry
  rw [← hpath]
  exact List.mem_of_find?_eq_some hentry

theorem getOrBuild_of_absent {s s' : Session σ} {path : Path}
    {build : Run σ (Index Value Row)} {index : Index Value Row}
    (habsent : s.cache.get? path = none) (hbuild : build s = (.ok index, s')) :
    getOrBuild path build s =
      (.ok (s'.cache.keep path index).1, { s' with cache := (s'.cache.keep path index).2 }) := by
  unfold getOrBuild
  rw [Run.bind_cache, habsent]
  exact bind_of_ok hbuild

theorem getOrBuild_of_failure {s s' : Session σ} {path : Path}
    {build : Run σ (Index Value Row)} {e : Error}
    (habsent : s.cache.get? path = none) (hbuild : build s = (.error e, s')) :
    getOrBuild path build s = (.error e, s') := by
  unfold getOrBuild
  rw [Run.bind_cache, habsent]
  exact bind_of_error hbuild

end Cache

/-- The index that a pass leads to, or the failure that prevents it. -/
def Path.indexOf (path : Path) (k : Nat) (answer : Except Error Pass) :
    Except Error (Index Value Row) := do
  Index.build (← answer) fun row => (row.field k).mapError (.indexKey path.text)

namespace Context

variable {c : Context σ} {s : Session σ} {collection name : String} {k : Nat}

theorem buildIndex_of_kept {path : Path} {index : Index Value Row}
    (h : s.cache.get? path = some index) :
    c.buildIndex path s = (.ok index, { s with log := .reusedIndex path :: s.log }) := by
  unfold buildIndex
  rw [Run.bind_cache, h]
  rfl

theorem buildIndex_root (h : s.cache.get? (.root name) = none) :
    c.buildIndex (.root name) s = (.error (.notAValue name), s) := by
  unfold buildIndex
  rw [Run.bind_cache, h]
  rfl

theorem compile_field_of_root :
    compile [.path (.root collection)] (.path (.field collection name k)) =
      .ok (.bound (.field 0 k) [0]) := by
  have hslot : rootSlot? [.path (.root collection)] collection = some 0 := by
    simp [rootSlot?, Expr.isRoot]
  simp only [compile, Term.ofExpr, hslot]
  rfl

theorem read_build_apply (source : Source σ) (path : Path) (k : Nat) (s : Session σ) :
    (do
      let pass ← Run.read source path.rootName
      liftM (Index.build pass fun row => (row.field k).mapError (.indexKey path.text)) :
        Run σ (Index Value Row)) s =
      (path.indexOf k (source.pass s.source path.rootName).1,
        s.afterPass source path.rootName) := by
  rcases hpass : (source.pass s.source path.rootName).1 with e | pass
  · have hread : Run.read source path.rootName s =
        (.error e, s.afterPass source path.rootName) := by
      rw [Run.read_apply, hpass]
      rfl
    rw [bind_of_error hread]
    rfl
  · have hread : Run.read source path.rootName s =
        (.ok pass, s.afterPass source path.rootName) := by
      rw [Run.read_apply, hpass]
      rfl
    rw [bind_of_ok hread, Run.lift_apply]
    rfl

theorem buildIndex_field (h : s.cache.get? (.field collection name k) = none) :
    c.buildIndex (.field collection name k) s =
      match (Path.field collection name k).indexOf k
          (c.scope.source.pass s.source collection).1 with
      | .error e => (.error e, s.afterPass c.scope.source collection)
      | .ok index => (.ok index,
          (s.afterPass c.scope.source collection).keeping (.field collection name k) index) := by
  have hbuild := read_build_apply c.scope.source (.field collection name k) k s
  have hkey : (liftM (compile [.path (.root collection)] (.path (.field collection name k))) :
      Run σ Evaluator) s = (.ok (.bound (.field 0 k) [0]), s) := by
    rw [compile_field_of_root, Run.lift_apply]
  unfold buildIndex
  rw [Run.bind_cache, h]
  refine (bind_of_ok hkey).trans ?_
  rcases hindex : (Path.field collection name k).indexOf k
      (c.scope.source.pass s.source collection).1 with e | index
  · rw [Path.rootName, hindex] at hbuild
    exact bind_of_error (Cache.getOrBuild_of_failure h hbuild)
  · rw [Path.rootName, hindex] at hbuild
    have hkept : ((s.afterPass c.scope.source collection).cache.keep
        (.field collection name k) index).1 = index := by
      have habsent : (s.afterPass c.scope.source collection).cache.get?
          (.field collection name k) = none := h
      rw [Cache.keep_of_absent habsent]
    refine (bind_of_ok (Cache.getOrBuild_of_absent h hbuild)).trans ?_
    rw [hkept]
    rfl

end Context

end IndexedQuery
