import IndexedQuery.Proofs.Context.Discovery

namespace IndexedQuery

variable {σ : Type} {rows : String → List Row} {names : List String}

/-- The bindings are the same at the slots before `slot` and at those from `n` on. -/
def AgreeOutside (slot n : Nat) (bindings bindings' : List Binding) : Prop :=
  ∀ i, i < slot ∨ n ≤ i → bindings.getD i .unbound = bindings'.getD i .unbound

/-- The first `n` slots belong to sources, and parameters come after them. -/
def ParamsFrom (n : Nat) (sources : List Expr) : Prop :=
  ∀ name slot, paramSlot? sources name = some slot → n ≤ slot

/-- The bindings are the same at the slots before `slot` and at those of parameters, wherever these
are. -/
def AgreeBefore (sources : List Expr) (slot : Nat) (bindings bindings' : List Binding) : Prop :=
  ∀ i, (i < slot ∨ ∃ name, paramSlot? sources name = some i) →
    bindings.getD i .unbound = bindings'.getD i .unbound

theorem AgreeBefore.mono {sources : List Expr} {slot first : Nat}
    {bindings bindings' : List Binding} (h : AgreeBefore sources slot bindings bindings')
    (hfirst : first ≤ slot) : AgreeBefore sources first bindings bindings' :=
  fun i hi => h i (hi.imp_left (Nat.lt_of_lt_of_le · hfirst))

theorem AgreeOutside.before {sources : List Expr} {slot n : Nat}
    {bindings bindings' : List Binding} (h : AgreeOutside slot n bindings bindings')
    (hparams : ParamsFrom n sources) : AgreeBefore sources slot bindings bindings' :=
  fun i hi => h i (hi.imp_right fun ⟨name, hname⟩ => hparams name i hname)

theorem Expr.mem_rootsRead {key : Expr} {p : Path} (h : .path p ∈ key.leaves) :
    p.rootName ∈ key.rootsRead := by
  rw [rootsRead, List.mem_eraseDups, List.mem_filterMap]
  exact ⟨.path p, h, rfl⟩

theorem Expr.boundBefore_iff {key : Expr} {sources : List Expr} {slot : Nat} :
    key.boundBefore sources slot = true ↔
      ∀ root ∈ key.rootsRead, ∃ earlier < slot, rootSlot? sources root = some earlier := by
  simp [boundBefore, Option.any_eq_true, and_comm]

theorem Expr.slot_lt_of_boundBefore {sources : List Expr} {key : Expr} {p : Path} {slot i : Nat}
    (h : key.boundBefore sources slot = true) (hleaf : .path p ∈ key.leaves)
    (hi : rootSlot? sources p.rootName = some i) : i < slot := by
  obtain ⟨earlier, hlt, hearlier⟩ := boundBefore_iff.mp h p.rootName (mem_rootsRead hleaf)
  rw [hi] at hearlier
  cases hearlier
  exact hlt

theorem Expr.slot_lt_of_boundBefore_field {sources : List Expr} {source name : String}
    {k slot i : Nat} (h : (Expr.path (.field source name k)).boundBefore sources slot = true)
    (hi : rootSlot? sources source = some i) : i < slot :=
  slot_lt_of_boundBefore (p := .field source name k) h (.head []) hi

theorem evaluate_congr_of_boundBefore {sources : List Expr} {key : Expr} {evaluator : Evaluator}
    {slot : Nat} {bindings bindings' : List Binding}
    (hbound : key.boundBefore sources slot = true) (hcompile : compile sources key = .ok evaluator)
    (hagree : AgreeBefore sources slot bindings bindings') :
    evaluator.evaluate bindings = evaluator.evaluate bindings' := by
  obtain ⟨t, hterm, heval⟩ := evaluate_of_compile hcompile
  rw [heval, heval]
  apply Term.eval_congr
  intro i hi
  rw [Term.slots_ofExpr key hterm] at hi
  obtain ⟨leaf, hleaf, hslot⟩ := List.mem_filterMap.mp hi
  apply hagree
  cases leaf with
  | path p => exact .inl (Expr.slot_lt_of_boundBefore hbound hleaf hslot)
  | param name => exact .inr ⟨name, hslot⟩
  | constant v => cases hslot
  | operation op args => cases hslot

/-- An entry as discovery makes it for one of the equalities, in either orientation. -/
inductive Registration.Pinned (sources : List Expr) (rows : String → List Row)
    (equalities : List (Expr × Expr)) : Expr × Registration → Prop where
  | intro {source name : String} {k slot : Nat} {key : Expr} {evaluator : Evaluator}
      (slot_eq : rootSlot? sources source = some slot)
      (bound : key.boundBefore sources slot = true)
      (compiled : compile sources key = .ok evaluator)
      (complete : Row.allHave k (rows source) = true)
      (equality : (.path (.field source name k), key) ∈ equalities ∨
        (key, .path (.field source name k)) ∈ equalities) :
      Pinned sources rows equalities (.path (.root source), ⟨.field source name k, evaluator⟩)

def Context.AllPinned (rows : String → List Row) (equalities : List (Expr × Expr))
    (c : Context σ) : Prop :=
  ∀ entry ∈ c.registrations, Registration.Pinned c.scope.sources rows equalities entry

namespace Context

variable {c : Context σ} {equalities : List (Expr × Expr)}

theorem allPinned_of_unregistered (h : c.registrations = []) : c.AllPinned rows equalities := by
  simp [AllPinned, h]

theorem pinned_of_pinned? {target key : Expr} {entry : Expr × Registration}
    (h : c.pinned? rows target key = some entry)
    (hmem : (target, key) ∈ equalities ∨ (key, target) ∈ equalities) :
    Registration.Pinned c.scope.sources rows equalities entry := by
  unfold pinned? at h
  split at h
  · rename_i hassess
    obtain ⟨source, name, k, slot, rfl, hpath, hslot, -, hbound, hcompile⟩ :=
      assess_eq_eligible hassess
    cases hpath
    split at h
    · rename_i hall
      cases h
      exact .intro hslot hbound hcompile hall hmem
    · cases h
  · cases h

def pinning (c : Context σ) : Option Expr → List (Expr × Expr)
  | none => []
  | some condition => condition.equalities c.scope.registry

theorem allPinned_specialized (h : c.registrations = []) (condition? : Option Expr) :
    (c.specialized rows condition?).AllPinned rows (c.pinning condition?) := by
  cases condition? with
  | none => exact allPinned_of_unregistered h
  | some condition =>
      simp only [specialized]
      split
      · rw [AllPinned, scope_considerAll]
        refine forall_considerAll (by simp [ofScope]) fun c' hscope target key hmem entry hentry => ?_
        rw [← hscope]
        exact pinned_of_pinned? hentry hmem
      · exact allPinned_of_unregistered rfl

theorem AllPinned.registration (hc : c.AllPinned rows equalities) {p : Path} {r : Registration}
    (h : c.registration? (.path p) = some r) :
    ∃ source, p = .root source ∧
      Registration.Pinned c.scope.sources rows equalities (.path (.root source), r) := by
  obtain ⟨entry, hentry, rfl, hqueried⟩ := exists_of_registration? h
  have hpinned := hc entry hentry
  cases hpinned with
  | @intro source name k slot key evaluator hslot hbound hcompile hall hmem =>
      exact ⟨source, (Expr.path_beq_path.mp hqueried).symm,
        .intro hslot hbound hcompile hall hmem⟩

theorem AllPinned.admits_congr (hc : c.AllPinned rows equalities) {slot : Nat} {p : Path}
    (hslot : ∀ first, rootSlot? c.scope.sources p.rootName = some first → first ≤ slot)
    {bindings bindings' : List Binding}
    (hagree : AgreeBefore c.scope.sources slot bindings bindings') :
    c.admits (.path p) bindings = c.admits (.path p) bindings' := by
  funext row
  rcases hreg : c.registration? (.path p) with _ | r
  · rw [admits_of_unregistered hreg, admits_of_unregistered hreg]
  · rw [admits_of_registered hreg, admits_of_registered hreg]
    obtain ⟨source, rfl, hpinned⟩ := hc.registration hreg
    cases hpinned with
    | @intro _ name k first key evaluator hfirst hbound hcompile hall hmem =>
        rw [Registration.admits, Registration.admits, evaluate_congr_of_boundBefore hbound
          hcompile (hagree.mono (hslot first hfirst))]

/-- Where the equalities hold, no lookup leaves out the row that they speak of. -/
theorem AllPinned.admits_of_equalUnder (hc : c.AllPinned rows equalities)
    {bindings : List Binding}
    (hequal : ∀ equality ∈ equalities, EqualUnder c.scope.sources bindings equality)
    {p : Path} {row : Row}
    (hrow : ∀ slot, rootSlot? c.scope.sources p.rootName = some slot →
      bindings.getD slot .unbound = .element row) :
    c.admits (.path p) bindings row = true := by
  rcases hreg : c.registration? (.path p) with _ | r
  · exact admits_of_unregistered hreg bindings row
  · obtain ⟨source, rfl, hpinned⟩ := hc.registration hreg
    cases hpinned with
    | @intro _ name k slot key evaluator hslot hbound hcompile hall hmem =>
        obtain ⟨t, hterm, heval⟩ := evaluate_of_compile hcompile
        have hfield : ∀ {left : Term} {v : Value},
            Term.ofExpr c.scope.sources (.path (.field source name k)) = .ok left →
              left.eval bindings = .ok v → row.field k = .ok v := by
          intro left v hleft hv
          rw [Term.ofExpr, hslot] at hleft
          cases hleft
          rw [Term.eval, Binding.rowAt, hrow slot hslot] at hv
          exact hv
        -- The field may be on either side of the equality.
        have hkey : ∃ v w, row.field k = .ok v ∧ evaluator.evaluate bindings = .ok w ∧
            (v == w) = true := by
          rcases hmem with hmem | hmem
          · obtain ⟨left, right, v, w, hleft, hv, hright, hw, hvw⟩ := hequal _ hmem
            cases hterm.symm.trans hright
            exact ⟨v, w, hfield hleft hv, (heval bindings).trans hw, hvw⟩
          · obtain ⟨left, right, v, w, hleft, hv, hright, hw, hvw⟩ := hequal _ hmem
            cases hterm.symm.trans hleft
            exact ⟨w, v, hfield hright hw, (heval bindings).trans hv,
              PartialEquivBEq.symm hvw⟩
        obtain ⟨v, w, hv, hw, hvw⟩ := hkey
        rw [admits_of_registered hreg, Registration.admits_of_key hw, Row.hasAt_of_field hv, hvw]

theorem AllPinned.resolveUnder_settled (hc : c.AllPinned rows equalities) {s : Session σ}
    (hs : s.Settled c.scope.source rows names) {p : Path} (hp : p.rootName ∈ names)
    (bindings : List Binding) :
    ∃ elements s', c.resolveUnder (.path p) bindings s = (.ok elements, s') ∧
      s'.Settled c.scope.source rows names ∧
      elements.toPass = ((rows p.rootName).filter (c.admits (.path p) bindings)).map .ok := by
  rcases hreg : c.registration? (.path p) with _ | r
  · have hfilter : (rows p.rootName).filter (c.admits (.path p) bindings) = rows p.rootName :=
      List.filter_eq_self.mpr fun row _ => admits_of_unregistered hreg bindings row
    obtain ⟨s', hscan, hs'⟩ := c.scope.scan_settled hs hp
    rw [resolveUnder_of_unregistered hreg, hscan, hfilter]
    exact ⟨_, s', rfl, hs', rfl⟩
  · rw [resolveUnder_of_registered hreg, admits_of_registered hreg]
    obtain ⟨source, rfl, hpinned⟩ := hc.registration hreg
    cases hpinned with
    | @intro _ name k slot key evaluator hslot hbound hcompile hall hmem =>
        rcases hkey : evaluator.evaluate bindings with e | v
        · have hfilter : (rows source).filter
              (Registration.admits ⟨.field source name k, evaluator⟩ bindings) = rows source :=
            List.filter_eq_self.mpr fun row _ => Registration.admits_of_key_error hkey row
          obtain ⟨s', hscan, hs'⟩ := c.scope.scan_settled (hs.log
            (.keyFailed (.path (.root source)) (.field source name k) e :: s.log)) hp
          rw [lookup_of_key_error, hscan]
          refine ⟨_, s', rfl, hs', ?_⟩
          rw [Path.rootName, hfilter]
          rfl
        · obtain ⟨s', hindex, hs'⟩ := indexFor_settled name hs hp hall
          obtain ⟨log, hlookup⟩ := lookup_of_index (.path (.root source))
            (r := ⟨.field source name k, evaluator⟩) hindex (Index.get?_byField hall v)
          rw [hlookup, Registration.admits_of_key hkey]
          exact ⟨_, _, rfl, hs'.log log, Elements.toPass_ofRows _⟩

end Context

end IndexedQuery
