import IndexedQuery.Proofs.Context.Discovery

/-!
What the passes over a source are for. Where no pass fails and no row lacks a field, each of them
groups the rows for an index that is kept from then on, or is handed over as a scan.
-/

namespace IndexedQuery

variable {σ : Type} {rows : String → List Row} {names scans : List String}

def Event.scanned? : Event → Option String
  | .fullScan root => some root
  | _ => none

/-- The collection that was scanned for an expression, if the answer is a scan. -/
def Expr.scansFor (e : Expr) : Except Error Elements → List String
  | .ok (.scan _) => (e.path?.map Path.rootName).toList
  | _ => []

theorem Expr.scansFor_of_isIndexed (e : Expr) {elements : Elements}
    (h : elements.isIndexed = true) : e.scansFor (.ok elements) = [] := by
  cases elements with
  | scan pass => cases h
  | indexed rows => rfl
  | empty => rfl

def Path.Filled (rows : String → List Row) : Path → Prop
  | .root _ => True
  | .field collection _ k => ∀ row ∈ rows collection, k < row.values.length

/-- The source gives the collection of the path, and every row of it has the field. -/
structure Path.Covered (rows : String → List Row) (names : List String) (p : Path) : Prop where
  named : p.rootName ∈ names
  filled : p.Filled rows

def Expr.Named (names : List String) (e : Expr) : Prop :=
  ∀ p, e = .path p → p.rootName ∈ names

def Expr.Filled (rows : String → List Row) (e : Expr) : Prop :=
  ∀ p, .path p ∈ e.leaves → p.Filled rows

namespace Session

/-- The collections whose scan was reported, the last one first. -/
def scanned (s : Session σ) : List String :=
  s.log.filterMap Event.scanned?

/-- No pass fails from now on, and those so far were made for the kept indexes and for scans. -/
structure Accounted (source : Source σ) (rows : String → List Row) (names scans : List String)
    (s : Session σ) : Prop where
  settled : s.Settled source rows names
  scanned_eq : s.scanned = scans
  passes_perm : s.passes.Perm (s.cache.paths.map Path.rootName ++ scans)

variable {source : Source σ} {s : Session σ}

theorem accounted_start {start : σ} (h : source.Yields rows names start) :
    (Session.start start).Accounted source rows names [] :=
  ⟨settled_start h, rfl, .refl []⟩

namespace Accounted

variable {collection name : String} {k : Nat}

theorem passCount_eq (h : s.Accounted source rows names scans) (collection : String) :
    s.passCount collection =
      s.cache.paths.countP (·.rootName == collection) + scans.count collection := by
  rw [passCount, h.passes_perm.count_eq, List.count_append, List.count, List.countP_map]
  rfl

theorem report (h : s.Accounted source rows names scans) {e : Event}
    (he : ∀ root, e ≠ .fullScan root) :
    Accounted source rows names scans { s with log := e :: s.log } := by
  refine ⟨h.settled.log _, ?_, h.passes_perm⟩
  have hscanned : e.scanned? = none := by
    cases e with
    | fullScan root => exact absurd rfl (he root)
    | _ => rfl
  rw [← h.scanned_eq, scanned, List.filterMap_cons_none hscanned, scanned]

theorem report_lockstep {e : Event} (he : ∀ root, e ≠ .fullScan root) :
    Lockstep (fun s s' => s = s' ∧ s.Accounted source rows names scans) (Run.report e) :=
  keeps_iff_lockstep.mp fun _ hs => hs.report he

theorem scan (h : s.Accounted source rows names scans) (hname : collection ∈ names) :
    Accounted source rows names (collection :: scans)
      { s.afterPass source collection with log := .fullScan collection :: s.log } := by
  refine ⟨(h.settled.afterPass hname).log _, ?_, ?_⟩
  · rw [← h.scanned_eq]
    rfl
  · exact (h.passes_perm.cons collection).trans List.perm_middle.symm

theorem keeping (h : s.Accounted source rows names scans) (hname : collection ∈ names)
    (habsent : s.cache.get? (.field collection name k) = none)
    (hall : Row.allHave k (rows collection) = true) :
    ((s.afterPass source collection).keeping (.field collection name k)
      (.byField k (rows collection))).Accounted source rows names scans := by
  have hpass := h.settled.afterPass hname
  refine ⟨⟨hpass.yields, hpass.sound.keep hall⟩, h.scanned_eq, ?_⟩
  -- The pass and the path are new on both sides, at the front of one and in the middle of the other.
  have hpaths : (s.cache.keep (.field collection name k) (.byField k (rows collection))).2.paths =
      s.cache.paths ++ [.field collection name k] := by
    rw [Cache.keep_of_absent habsent]
    simp [Cache.paths]
  simp only [Session.keeping, afterPass, hpaths]
  simpa [Path.rootName] using (h.passes_perm.cons collection).trans List.perm_middle.symm

end Accounted

end Session

theorem Cache.exists_get? {cache : PathCache} {path : Path} (h : path ∈ cache.paths) :
    ∃ index, cache.get? path = some index := by
  rcases hget : cache.get? path with _ | index
  · exact absurd (ne_of_mem_paths hget h) (by simp)
  · exact ⟨index, rfl⟩

namespace Scope

variable {scope : Scope σ} {s : Session σ}

theorem scan_accounted (hs : s.Accounted scope.source rows names scans) {e : Expr}
    (he : e.Named names) :
    (scope.scan e s).2.Accounted scope.source rows names
      (e.scansFor (scope.scan e s).1 ++ scans) := by
  cases e with
  | path p =>
      rw [scan_path, hs.settled.yields.complete (he p rfl)]
      exact hs.scan (he p rfl)
  | _ => exact hs

theorem not_isIndexed_of_scan {e : Expr} {elements : Elements} {s' : Session σ}
    (h : scope.scan e s = (.ok elements, s')) : ¬ elements.isIndexed = true := by
  cases e with
  | path p =>
      rw [scan_path] at h
      rcases hpass : (scope.source.pass s.source p.rootName).1 with e | pass
      · rw [hpass] at h
        cases h
      · rw [hpass] at h
        cases h
        simp [Elements.isIndexed]
  | _ => cases h

end Scope

namespace Context

variable {c : Context σ} {s : Session σ} {path : Path}

def Covered (rows : String → List Row) (names : List String) (c : Context σ) : Prop :=
  ∀ entry ∈ c.registrations, entry.2.path.Covered rows names

theorem Covered.registration (hc : c.Covered rows names) {queried : Expr} {r : Registration}
    (h : c.registration? queried = some r) : r.path.Covered rows names := by
  obtain ⟨entry, hentry, rfl, -⟩ := exists_of_registration? h
  exact hc entry hentry

theorem Covered.register (hc : c.Covered rows names) (queried : Expr) {r : Registration}
    (hr : r.path.Covered rows names) :
    Covered rows names { c with registrations := c.registrations ++ [(queried, r)] } :=
  List.forall_mem_append.mpr ⟨hc, by simpa using hr⟩

theorem buildIndex_accounted (hpath : path.Covered rows names) :
    Keeps (Session.Accounted c.scope.source rows names scans) (c.buildIndex path) := by
  intro s hs
  rcases hkept : s.cache.get? path with _ | index
  · cases path with
    | root name =>
        rw [buildIndex_root hkept]
        exact hs
    | field collection name k =>
        have hname : collection ∈ names := hpath.named
        have hall := Row.allHave_iff.mpr hpath.filled
        rw [buildIndex_field hkept, hs.settled.yields.complete hname, indexOf_complete hall]
        exact hs.keeping hname hkept hall
  · rw [buildIndex_of_kept hkept]
    exact hs.report (by simp)

theorem indexFor_accounted (hpath : path.Covered rows names) :
    Keeps (Session.Accounted c.scope.source rows names scans) (c.indexFor path) := by
  intro s hs
  rcases hkept : s.cache.get? path with _ | index
  · rw [indexFor_of_absent hkept]
    exact Run.orKeyError_keeps (buildIndex_accounted hpath) s hs
  · rw [indexFor_of_kept hkept]
    exact hs

section Resolution

variable {queried : Expr}

theorem lookup_of_indexFor (queried : Expr) {r : Registration} {v : Value}
    {index : Index Value Row} {s' : Session σ} (hindex : c.indexFor r.path s = (.ok (.ok index), s')) :
    ∃ elements e, elements.isIndexed = true ∧ (∀ root, e ≠ Event.fullScan root) ∧
      c.lookup queried r (.ok v) s = (.ok elements, { s' with log := e :: s'.log }) := by
  have hlookup : c.lookup queried r (.ok v) s = _ := bind_of_ok hindex
  rw [hlookup]
  rcases hget : index.get? v with _ | found
  · simp only [hget]
    exact ⟨_, _, rfl, by simp, rfl⟩
  · simp only [hget]
    exact ⟨_, _, rfl, by simp, rfl⟩

theorem lookup_accounted (hs : s.Accounted c.scope.source rows names scans)
    (hqueried : queried.Named names) {r : Registration} (hr : r.path.Covered rows names)
    (key : Outcome) :
    (c.lookup queried r key s).2.Accounted c.scope.source rows names
      (queried.scansFor (c.lookup queried r key s).1 ++ scans) := by
  rcases key with e | v
  · exact c.scope.scan_accounted (hs.report (by simp)) hqueried
  · have hindexFor := indexFor_accounted hr s hs
    rcases hindex : c.indexFor r.path s with ⟨answer, s'⟩
    rw [hindex] at hindexFor
    rcases answer with e | e | index
    · have hlookup : c.lookup queried r (.ok v) s = (.error e, s') := bind_of_error hindex
      rw [hlookup]
      exact hindexFor
    · rw [lookup_of_unindexable hindex]
      exact c.scope.scan_accounted (hindexFor.report (by simp)) hqueried
    · obtain ⟨elements, e, hindexed, he, hlookup⟩ := lookup_of_indexFor queried (v := v) hindex
      rw [hlookup, Expr.scansFor_of_isIndexed queried hindexed]
      exact hindexFor.report he

theorem passes_of_lookup {r : Registration} {key : Outcome} {index : Index Value Row}
    (hkept : s.cache.get? r.path = some index) {elements : Elements} {s' : Session σ}
    (h : c.lookup queried r key s = (.ok elements, s')) (hindexed : elements.isIndexed = true) :
    s'.passes = s.passes := by
  rcases key with e | v
  · exact absurd hindexed (c.scope.not_isIndexed_of_scan h)
  · obtain ⟨_, _, -, -, hlookup⟩ := lookup_of_indexFor queried (v := v) (indexFor_of_kept hkept)
    rw [hlookup] at h
    cases h
    rfl

namespace Resolves

variable {act : Run σ Elements}

theorem accounted (h : c.Resolves queried act) (hc : c.Covered rows names)
    (hqueried : queried.Named names) (hs : s.Accounted c.scope.source rows names scans) :
    (act s).2.Accounted c.scope.source rows names (queried.scansFor (act s).1 ++ scans) := by
  cases h with
  | scan _ => exact c.scope.scan_accounted hs hqueried
  | lookup registered key => exact lookup_accounted hs hqueried (hc.registration registered) key
  | failure e => exact hs

theorem passes_eq (h : c.Resolves queried act)
    (hkept : ∀ r, c.registration? queried = some r → r.path ∈ s.cache.paths)
    {elements : Elements} {s' : Session σ} (hrun : act s = (.ok elements, s'))
    (hindexed : elements.isIndexed = true) : s'.passes = s.passes := by
  cases h with
  | scan _ => exact absurd hindexed (c.scope.not_isIndexed_of_scan hrun)
  | lookup registered key =>
      obtain ⟨index, hget⟩ := Cache.exists_get? (hkept _ registered)
      exact passes_of_lookup hget hrun hindexed
  | failure e => cases hrun

end Resolves

end Resolution

theorem covered_of_assess {target key : Expr} {evaluator : Evaluator}
    (h : c.assess target key = .eligible path evaluator) (hwithin : c.scope.Within names)
    (hfilled : ∀ p, target = .path p → p.Filled rows) : path.Covered rows names := by
  obtain ⟨source, name, k, slot, rfl, rfl, hslot, -⟩ := assess_eq_eligible h
  exact ⟨hwithin source slot hslot, hfilled _ rfl⟩

theorem covered_of_pinned? {target key : Expr} {entry : Expr × Registration}
    (h : c.pinned? rows target key = some entry) (hwithin : c.scope.Within names) :
    entry.2.path.Covered rows names := by
  unfold pinned? at h
  split at h
  · rename_i source name k evaluator hassess
    obtain ⟨_, _, _, slot, -, hpath, hslot, -⟩ := assess_eq_eligible hassess
    cases hpath
    split at h
    · rename_i hall
      cases h
      exact ⟨hwithin source slot hslot, Row.allHave_iff.mp hall⟩
    · cases h
  · cases h

theorem Covered.considerAll (hc : c.Covered rows names) (hwithin : c.scope.Within names)
    (equalities : List (Expr × Expr)) : (considerAll rows c equalities).Covered rows names := by
  refine forall_considerAll hc fun c' hscope target key _ entry hentry => ?_
  rw [← hscope] at hwithin
  exact covered_of_pinned? hentry hwithin

theorem covered_ofScope (scope : Scope σ) : (ofScope scope).Covered rows names := by
  simp [Covered, ofScope]

theorem Covered.specialized (hc : c.Covered rows names) (hwithin : c.scope.Within names)
    (condition? : Option Expr) : (c.specialized rows condition?).Covered rows names := by
  cases condition? with
  | none => exact hc
  | some condition =>
      simp only [Context.specialized]
      split
      · exact (covered_ofScope c.scope).considerAll hwithin _
      · exact covered_ofScope c.scope

end Context

/-- Discovery hands over no scan: what it passes over it keeps an index of. -/
theorem Extension.discover_accounted {scope : Scope σ} {condition : Expr}
    (hwithin : scope.Within names) (hcondition : condition.Filled rows) :
    Lockstep (Related scope fun s s' => s = s' ∧ s.Accounted scope.source rows names scans)
      (discover condition) := by
  apply discover_lockstep_of
  intro target key htarget
  apply pin_lockstep_of fun _ he => Session.Accounted.report_lockstep he
  rintro c rfl path evaluator hassess
  exact keeps_iff_lockstep.mp <| c.buildIndex_accounted <|
    Context.covered_of_assess hassess hwithin fun p hp => hcondition p (htarget p hp)

theorem Context.specialize_accounted {c : Context σ} (hwithin : c.scope.Within names)
    {condition? : Option Expr}
    (hcondition : ∀ condition, condition? = some condition → condition.Filled rows) :
    Keeps (Session.Accounted c.scope.source rows names scans) (c.specialize condition?) :=
  keeps_iff_lockstep.mpr <|
    specialize_lockstep_of (fun _ he => Session.Accounted.report_lockstep he) fun condition h =>
      Extension.discover_accounted hwithin (hcondition condition h)

end IndexedQuery
