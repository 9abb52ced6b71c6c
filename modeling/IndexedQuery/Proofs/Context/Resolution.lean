import IndexedQuery.Proofs.Session.Integrity

namespace IndexedQuery

variable {σ : Type} {rows : String → List Row} {names : List String}

namespace Elements

/-- The answer of an index with some rows under the key. -/
def ofRows : List Row → Elements
  | [] => .empty
  | row :: rows => .indexed (.start (row :: rows))

@[simp] theorem toPass_ofRows (found : List Row) : (ofRows found).toPass = found.map .ok := by
  cases found <;> rfl

end Elements

namespace Scope

variable (scope : Scope σ) (s : Session σ)

theorem scan_path (p : Path) :
    scope.scan (.path p) s =
      ((scope.source.pass s.source p.rootName).1.map Elements.scan,
        { s.afterPass scope.source p.rootName with
          log := .fullScan p.rootName :: s.log }) := by
  have hread := Run.read_apply scope.source p.rootName
    { s with log := .fullScan p.rootName :: s.log }
  simp only [Scope.scan]
  rw [Run.bind_report]
  rcases hpass : (scope.source.pass s.source p.rootName).1 with e | pass
  · rw [hpass] at hread
    exact bind_of_error hread
  · rw [hpass] at hread
    exact bind_of_ok hread

theorem scan_fst_log (e : Expr) (log : List Event) :
    (scope.scan e { s with log }).1 = (scope.scan e s).1 := by
  cases e with
  | path p =>
      rw [scan_path, scan_path]
  | _ => rfl

theorem scan_lockstep {R : Session σ → Session σ → Prop}
    (hR : Session.Bisimulation scope.source R) (e : Expr) : Lockstep R (scope.scan e) := by
  cases e with
  | path p =>
      exact (hR.report _).bind fun _ => (hR.read p.rootName).bind fun pass => .pure (Elements.scan pass)
  | _ => exact .throw _

theorem scan_settled {s : Session σ} (hs : s.Settled scope.source rows names) {p : Path}
    (hp : p.rootName ∈ names) :
    ∃ s', scope.scan (.path p) s = (.ok (.scan ((rows p.rootName).map .ok)), s') ∧
      s'.Settled scope.source rows names := by
  rw [scan_path, hs.yields.complete hp]
  exact ⟨_, rfl, (hs.afterPass hp).log _⟩

end Scope

theorem Expr.path_beq_path {p p' : Path} :
    (Expr.path p == Expr.path p') = true ↔ p = p' := by
  change Expr.beq (.path p) (.path p') = true ↔ p = p'
  rw [Expr.beq, beq_iff_eq]

/-- Whether the row has the key of the index. A key that cannot be computed rules nothing out. -/
def Registration.admits (r : Registration) (bindings : List Binding) (row : Row) : Bool :=
  match r.path, r.key.evaluate bindings with
  | .field _ _ k, .ok v => row.hasAt k v
  | _, _ => true

namespace Registration

theorem admits_of_key {collection name : String} {k : Nat} {key : Evaluator}
    {bindings : List Binding} {v : Value} (h : key.evaluate bindings = .ok v) :
    admits ⟨.field collection name k, key⟩ bindings = Row.hasAt k v := by
  funext row
  simp [admits, h]

theorem admits_of_key_error {r : Registration} {bindings : List Binding} {e : Error}
    (h : r.key.evaluate bindings = .error e) (row : Row) : r.admits bindings row = true := by
  simp [admits, h]

end Registration

/-- Whether the row may be among those that a source expression is resolved to. -/
def Context.admits (c : Context σ) (queried : Expr) (bindings : List Binding) (row : Row) : Bool :=
  (c.registration? queried).all (·.admits bindings row)

namespace Context

variable {c : Context σ} {s s' : Session σ} {queried : Expr} {r : Registration}

theorem exists_of_registration? (h : c.registration? queried = some r) :
    ∃ entry ∈ c.registrations, entry.2 = r ∧ (entry.1 == queried) = true := by
  obtain ⟨entry, hfind, rfl⟩ := Option.map_eq_some_iff.mp h
  exact ⟨entry, List.mem_of_find?_eq_some hfind, rfl, by simpa using List.find?_some hfind⟩

theorem admits_of_unregistered (h : c.registration? queried = none) (bindings : List Binding)
    (row : Row) : c.admits queried bindings row = true := by
  simp [admits, h]

theorem admits_of_registered (h : c.registration? queried = some r) (bindings : List Binding) :
    c.admits queried bindings = r.admits bindings := by
  funext row
  simp [admits, h]

theorem indexFor_of_buildIndex {path : Path} {index : Index Value Row}
    (h : (c.buildIndex path s).1 = .ok index) :
    ∃ s', c.indexFor path s = (.ok (.ok index), s') := by
  rcases hkept : s.cache.get? path with _ | kept
  · rcases hbuild : c.buildIndex path s with ⟨answer, s'⟩
    rw [hbuild] at h
    subst h
    rw [indexFor_of_absent hkept]
    exact ⟨s', Run.orKeyError_of_ok hbuild⟩
  · rw [buildIndex_of_kept hkept] at h
    cases h
    exact ⟨s, indexFor_of_kept hkept⟩

theorem indexFor_settled (name : String) {collection : String} {k : Nat}
    (hs : s.Settled c.scope.source rows names) (hname : collection ∈ names)
    (hall : Row.allHave k (rows collection) = true) :
    ∃ s', c.indexFor (.field collection name k) s =
        (.ok (.ok (.byField k (rows collection))), s') ∧
      s'.Settled c.scope.source rows names := by
  rcases hkept : s.cache.get? (.field collection name k) with _ | index
  · obtain ⟨s', hbuild, hs'⟩ := c.buildIndex_settled name hs hname hall
    rw [indexFor_of_absent hkept, Run.orKeyError_of_ok hbuild]
    exact ⟨s', rfl, hs'⟩
  · rw [indexFor_of_kept hkept, (hs.sound.of_get? hkept).2]
    exact ⟨s, rfl, hs⟩

theorem indexFor_of_key_error {path : Path} {text : String} {cause : Error}
    (h : c.buildIndex path s = (.error (.indexKey text cause), s')) :
    c.indexFor path s = (.ok (.error (.indexKey text cause)), s') := by
  rcases hkept : s.cache.get? path with _ | kept
  · rw [indexFor_of_absent hkept]
    exact Run.orKeyError_of_error h
  · rw [buildIndex_of_kept hkept] at h
    cases h

theorem lookup_of_key_error {e : Error} :
    c.lookup queried r (.error e) s =
      c.scope.scan queried { s with log := .keyFailed queried r.path e :: s.log } :=
  rfl

theorem lookup_of_index (queried : Expr) {v : Value} {index : Index Value Row}
    {found : List Row}
    (hindex : c.indexFor r.path s = (.ok (.ok index), s'))
    (hget : index.get? v = Index.present found) :
    ∃ log, c.lookup queried r (.ok v) s = (.ok (.ofRows found), { s' with log }) := by
  have hlookup : c.lookup queried r (.ok v) s = _ := bind_of_ok hindex
  rw [hlookup]
  cases found with
  | nil =>
      simp only [hget, Index.present_nil]
      exact ⟨_, rfl⟩
  | cons row found =>
      have hsome : Index.present (row :: found) = some (row :: found) := rfl
      simp only [hget, hsome]
      exact ⟨_, rfl⟩

theorem lookup_of_unindexable {v : Value} {e : Error}
    (hindex : c.indexFor r.path s = (.ok (.error e), s')) :
    c.lookup queried r (.ok v) s =
      c.scope.scan queried { s' with log := .lookupFailed queried e :: s'.log } :=
  bind_of_ok hindex

theorem resolveUnder_of_unregistered (h : c.registration? queried = none)
    (bindings : List Binding) :
    c.resolveUnder queried bindings = c.scope.scan queried := by
  simp [resolveUnder, h]

theorem resolveUnder_of_registered (h : c.registration? queried = some r)
    (bindings : List Binding) :
    c.resolveUnder queried bindings = c.lookup queried r (r.key.evaluate bindings) := by
  simp [resolveUnder, h]

/-- The ways in which an expression is resolved, with bindings and without. -/
inductive Resolves (c : Context σ) (queried : Expr) : Run σ Elements → Prop where
  | scan (unregistered : c.registration? queried = none) :
      c.Resolves queried (c.scope.scan queried)
  | lookup {r : Registration} (registered : c.registration? queried = some r) (key : Outcome) :
      c.Resolves queried (c.lookup queried r key)
  | failure (e : Error) : c.Resolves queried (throw e)

theorem resolves_resolveUnder (c : Context σ) (queried : Expr) (bindings : List Binding) :
    c.Resolves queried (c.resolveUnder queried bindings) := by
  rcases hreg : c.registration? queried with _ | r
  · rw [resolveUnder_of_unregistered hreg]
    exact .scan hreg
  · rw [resolveUnder_of_registered hreg]
    exact .lookup hreg _

theorem resolves_resolve (c : Context σ) (queried : Expr) :
    c.Resolves queried (c.resolve queried) := by
  unfold resolve
  split
  · rename_i hreg
    exact .scan hreg
  · rename_i r hreg
    split
    · exact .lookup hreg _
    · exact .failure _

section Lockstep

variable {R : Session σ → Session σ → Prop} (hR : Session.Bisimulation c.scope.source R)

include hR

theorem lookup_lockstep (queried : Expr) (r : Registration) (key : Outcome) :
    Lockstep R (c.lookup queried r key) := by
  have hscan := c.scope.scan_lockstep hR queried
  rcases key with e | v
  · exact (hR.report _).bind fun _ => hscan
  · refine (hR.indexFor c rfl r.path).bind fun index => ?_
    rcases index with e | index
    · exact (hR.report _).bind fun _ => hscan
    · dsimp only
      split
      · exact (hR.report _).bind fun _ => .pure _
      · exact (hR.report _).bind fun _ => .pure _

theorem Resolves.lockstep {queried : Expr} {act : Run σ Elements} (h : c.Resolves queried act) :
    Lockstep R act := by
  cases h with
  | scan _ => exact c.scope.scan_lockstep hR queried
  | lookup _ key => exact lookup_lockstep hR queried _ key
  | failure e => exact .throw e

theorem resolveUnder_lockstep (queried : Expr) (bindings : List Binding) :
    Lockstep R (c.resolveUnder queried bindings) :=
  (c.resolves_resolveUnder queried bindings).lockstep hR

theorem resolve_lockstep (queried : Expr) : Lockstep R (c.resolve queried) :=
  (c.resolves_resolve queried).lockstep hR

end Lockstep

section Answers

variable {collection name : String} {k : Nat} {key : Evaluator} {bindings : List Binding}

/-- Where an index is kept or can be built, it answers with exactly the rows that have the key. -/
theorem resolveUnder_of_index {v : Value} {index : Index Value Row}
    (hs : s.Intact c.scope.source rows)
    (hreg : c.registration? queried = some ⟨.field collection name k, key⟩)
    (hkey : key.evaluate bindings = .ok v)
    (hindex : (c.buildIndex (.field collection name k) s).1 = .ok index) :
    (c.resolveUnder queried bindings s).1 =
      .ok (.ofRows ((rows collection).filter (·.hasAt k v))) := by
  obtain ⟨hall, rfl⟩ := eq_byField_of_buildIndex hs hindex
  obtain ⟨s', hfor⟩ := indexFor_of_buildIndex hindex
  obtain ⟨log, hlookup⟩ := lookup_of_index queried
    (r := ⟨.field collection name k, key⟩) hfor (Index.get?_byField hall v)
  rw [resolveUnder_of_registered hreg, hkey, hlookup]

theorem resolveUnder_of_key_error {e : Error}
    (hreg : c.registration? queried = some ⟨.field collection name k, key⟩)
    (hkey : key.evaluate bindings = .error e) :
    (c.resolveUnder queried bindings s).1 = (c.scope.scan queried s).1 := by
  rw [resolveUnder_of_registered hreg, hkey, lookup_of_key_error, Scope.scan_fst_log]

theorem resolveUnder_of_unindexable {v : Value} {text : String} {cause : Error}
    (hreg : c.registration? queried = some ⟨.field collection name k, key⟩)
    (hkey : key.evaluate bindings = .ok v)
    (hindex : c.buildIndex (.field collection name k) s =
      (.error (.indexKey text cause), s')) :
    (c.resolveUnder queried bindings s).1 = (c.scope.scan queried s').1 := by
  rw [resolveUnder_of_registered hreg, hkey,
    lookup_of_unindexable (indexFor_of_key_error hindex), Scope.scan_fst_log]

end Answers

end Context

end IndexedQuery
