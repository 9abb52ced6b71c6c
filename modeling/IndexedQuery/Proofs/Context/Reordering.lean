import IndexedQuery.Proofs.Context.Resolution
import IndexedQuery.Proofs.Context.Specialization
import IndexedQuery.Proofs.Session.Abreast

/-!
Scopes with the same names in other slots. The sources keep their slots, the parameters may have
been reordered. Discovery does the same in both, and registers keys that were compiled from the same
expressions.
-/

namespace IndexedQuery

variable {σ α : Type}

/-- The same names are in scope, those of sources in the same slots. -/
structure SameNames (sources sources' : List Expr) : Prop where
  root_eq : ∀ name, rootSlot? sources name = rootSlot? sources' name
  param_iff : ∀ name, (paramSlot? sources name).isSome = (paramSlot? sources' name).isSome

def SameKey (sources sources' : List Expr) (evaluator evaluator' : Evaluator) : Prop :=
  ∃ e, compile sources e = .ok evaluator ∧ compile sources' e = .ok evaluator'

namespace SameNames

variable {sources sources' : List Expr}

mutual

theorem ofExpr_alike (h : SameNames sources sources') : (e : Expr) →
    Alike (fun _ _ => True) (Term.ofExpr sources e) (Term.ofExpr sources' e)
  | .constant v => by
      rw [Term.ofExpr, Term.ofExpr]
      exact .ok trivial
  | .path (.root name) => by
      rw [Term.ofExpr, Term.ofExpr]
      exact .error _
  | .path (.field source name index) => by
      rw [Term.ofExpr, Term.ofExpr, h.root_eq]
      split
      · exact .ok trivial
      · exact .error _
  | .param name => by
      have hparam := h.param_iff name
      rw [Term.ofExpr, Term.ofExpr]
      rcases hslot : paramSlot? sources name with _ | slot <;>
        rcases hslot' : paramSlot? sources' name with _ | slot' <;>
          rw [hslot, hslot'] at hparam
      · exact .error _
      · cases hparam
      · cases hparam
      · exact .ok trivial
  | .operation op args => by
      rw [Term.ofExpr, Term.ofExpr]
      split
      · exact (ofExprs_alike h args).bind fun _ _ _ => .ok trivial
      · exact .error _

theorem ofExprs_alike (h : SameNames sources sources') : (es : List Expr) →
    Alike (fun _ _ => True) (Term.ofExprs sources es) (Term.ofExprs sources' es)
  | [] => by
      rw [Term.ofExprs, Term.ofExprs]
      exact .ok trivial
  | e :: es => by
      rw [Term.ofExprs, Term.ofExprs]
      exact (ofExpr_alike h e).bind fun _ _ _ => (ofExprs_alike h es).bind fun _ _ _ => .ok trivial

end

theorem compile_alike (h : SameNames sources sources') (e : Expr) :
    Alike (SameKey sources sources') (compile sources e) (compile sources' e) :=
  IndexedQuery.compile_alike (h.ofExpr_alike e) fun _ _ hev hev' => ⟨e, hev, hev'⟩

theorem boundBefore_eq (h : SameNames sources sources') (key : Expr) (slot : Nat) :
    key.boundBefore sources slot = key.boundBefore sources' slot := by
  simp only [Expr.boundBefore, h.root_eq]

end SameNames

structure Scope.Reordered (scope scope' : Scope σ) : Prop where
  source_eq : scope.source = scope'.source
  registry_eq : scope.registry = scope'.registry
  config_eq : scope.config = scope'.config
  names : SameNames scope.sources scope'.sources

/-- Entries for the same expression, with the same path and with keys from one expression. -/
def SameEntry (sources sources' : List Expr) (entry entry' : Expr × Registration) : Prop :=
  entry.1 = entry'.1 ∧ entry.2.path = entry'.2.path ∧
    SameKey sources sources' entry.2.key entry'.2.key

structure Context.Reordered (scope scope' : Scope σ) (c c' : Context σ) : Prop where
  scope_eq : c.scope = scope
  scope_eq' : c'.scope = scope'
  registrations : List.Forall₂ (SameEntry scope.sources scope'.sources) c.registrations
    c'.registrations

section Congruence

variable {c c' : Context σ} (hsource : c.scope.source = c'.scope.source)

include hsource

theorem Scope.scan_congr (e : Expr) : c.scope.scan e = c'.scope.scan e := by
  cases e <;> simp only [scan, hsource]

namespace Context

theorem buildIndex_congr (path : Path) : c.buildIndex path = c'.buildIndex path := by
  unfold buildIndex
  rw [hsource]

theorem indexFor_congr (path : Path) : c.indexFor path = c'.indexFor path := by
  unfold indexFor
  rw [buildIndex_congr hsource]

theorem lookup_congr (queried : Expr) {r r' : Registration} (hpath : r.path = r'.path)
    (key : Outcome) : c.lookup queried r key = c'.lookup queried r' key := by
  cases key <;>
    simp only [lookup, hpath, indexFor_congr hsource, Scope.scan_congr hsource]

end Context

end Congruence

theorem find?_sameEntry {sources sources' : List Expr}
    {entries entries' : List (Expr × Registration)}
    (h : List.Forall₂ (SameEntry sources sources') entries entries') (queried : Expr) :
    Option.Rel (SameEntry sources sources') (entries.find? fun entry => entry.1 == queried)
      (entries'.find? fun entry => entry.1 == queried) := by
  induction h with
  | nil => exact .none
  | @cons entry entry' entries entries' hfirst _ ih =>
      rw [List.find?_cons, List.find?_cons, hfirst.1]
      split
      · exact .some hfirst
      · exact ih

namespace Context.Reordered

variable {scope scope' : Scope σ} {c c' : Context σ}

theorem ofScope (scope scope' : Scope σ) :
    Context.Reordered scope scope' (.ofScope scope) (.ofScope scope') :=
  ⟨rfl, rfl, .nil⟩

section Registrations

variable (h : c.Reordered scope scope' c')

include h

theorem registration?_cases (queried : Expr) :
    (c.registration? queried = none ∧ c'.registration? queried = none) ∨
      ∃ r r', c.registration? queried = some r ∧ c'.registration? queried = some r' ∧
        r.path = r'.path ∧ SameKey scope.sources scope'.sources r.key r'.key := by
  have hfind := find?_sameEntry h.registrations queried
  unfold Context.registration?
  generalize c.registrations.find? (fun entry => entry.1 == queried) = first at hfind
  generalize c'.registrations.find? (fun entry => entry.1 == queried) = second at hfind
  cases hfind with
  | none => exact .inl ⟨rfl, rfl⟩
  | some hentry => exact .inr ⟨_, _, rfl, rfl, hentry.2⟩

theorem isIndexed_eq (queried : Expr) : c.isIndexed queried = c'.isIndexed queried := by
  unfold isIndexed
  rcases h.registration?_cases queried with ⟨hnone, hnone'⟩ | ⟨r, r', hsome, hsome', -⟩
  · rw [hnone, hnone']
  · rw [hsome, hsome']
    rfl

end Registrations

end Context.Reordered

/-! ## Discovery -/

/-- What is known of a candidate is the same, but for the layout that its key was compiled for. -/
inductive Assessment.Reordered (sources sources' : List Expr) : Assessment → Assessment → Prop where
  | unsuitable : Reordered sources sources' .unsuitable .unsuitable
  | rejected (reason : Event) : Reordered sources sources' (.rejected reason) (.rejected reason)
  | eligible (path : Path) {key key' : Evaluator} (h : SameKey sources sources' key key') :
      Reordered sources sources' (.eligible path key) (.eligible path key')

section Discovery

variable {scope scope' : Scope σ} (hscope : scope.Reordered scope')

include hscope

theorem Context.Reordered.assess {c c' : Context σ} (h : c.Reordered scope scope' c')
    (target key : Expr) :
    Assessment.Reordered scope.sources scope'.sources (c.assess target key)
      (c'.assess target key) := by
  unfold Context.assess
  split
  · dsimp only
    rw [h.scope_eq, h.scope_eq', ← hscope.names.root_eq, h.isIndexed_eq]
    split
    · exact .unsuitable
    · split
      · exact .unsuitable
      · rw [← hscope.names.boundBefore_eq]
        split
        · have hkey := hscope.names.compile_alike key
          generalize compile scope.sources key = compiled at hkey
          generalize compile scope'.sources key = compiled' at hkey
          cases hkey with
          | ok hkey => exact .eligible _ hkey
          | error e => exact .rejected _
        · exact .rejected _
  · exact .unsuitable

namespace Extension

/-- Contexts with the same names in other slots, in one session. -/
def Reordered (scope scope' : Scope σ) (state state' : Context σ × Session σ) : Prop :=
  state.1.Reordered scope scope' state'.1 ∧ state.2 = state'.2

omit hscope in
theorem context_abreast :
    Abreast (Reordered scope scope') (Context.Reordered scope scope') context context := by
  intro state state' hstate
  exact ⟨.ok hstate.1, hstate⟩

omit hscope in
theorem within_abreast (act : Run σ α) :
    Abreast (Reordered scope scope') Eq (within act) (within act) := by
  rintro ⟨c, s⟩ ⟨c', _⟩ ⟨hc, rfl⟩
  exact ⟨.refl (fun _ => rfl) _, hc, rfl⟩

omit hscope in
theorem register_abreast {queried : Expr} {path : Path} {key key' : Evaluator}
    (hkey : SameKey scope.sources scope'.sources key key') :
    Abreast (Reordered scope scope') Eq (register queried ⟨path, key⟩)
      (register queried ⟨path, key'⟩) := by
  refine context_abreast.bind fun c c' hc => ?_
  rw [hc.isIndexed_eq]
  split
  · exact .pure rfl
  · refine (within_abreast _).bind fun _ _ _ => ?_
    refine Abreast.bind (A := Eq) ?_ fun _ _ _ => .pure rfl
    rintro ⟨c, s⟩ ⟨c', _⟩ ⟨hc, rfl⟩
    refine ⟨.ok rfl, ⟨hc.scope_eq, hc.scope_eq', ?_⟩, rfl⟩
    exact List.rel_append hc.registrations (.cons ⟨rfl, rfl, hkey⟩ .nil)

theorem pin_abreast (target key : Expr) :
    Abreast (Reordered scope scope') Eq (pin target key) (pin target key) := by
  refine context_abreast.bind fun c c' hc => ?_
  have hassess := hc.assess hscope target key
  generalize c.assess target key = assessed at hassess
  generalize c'.assess target key = assessed' at hassess
  cases hassess with
  | unsuitable => exact .pure rfl
  | rejected reason => exact (within_abreast _).bind fun _ _ _ => .pure rfl
  | eligible path hkey =>
      have hsource : c.scope.source = c'.scope.source := by
        rw [hc.scope_eq, hc.scope_eq', hscope.source_eq]
      dsimp only
      rw [Context.buildIndex_congr hsource]
      refine (within_abreast _).bind fun answer _ hanswer => ?_
      cases hanswer
      split
      · exact (within_abreast _).bind fun _ _ _ => .pure rfl
      · exact register_abreast hkey

theorem discover_reordered (e : Expr) :
    Lockstep (Reordered scope scope') (discover e) := by
  refine discover_of_pin (T := Lockstep (Reordered scope scope')) (lockstep_compositional ?_) e
    fun target key _ => ?_
  · rintro ⟨c, s⟩ ⟨c', _⟩ ⟨hc, -⟩
    rw [hc.scope_eq, hc.scope_eq', hscope.registry_eq]
  · intro state state' hstate
    exact (pin_abreast hscope target key).lockstep hstate

end Extension

theorem Context.Reordered.specialize {c c' : Context σ} (h : c.Reordered scope scope' c')
    (condition? : Option Expr) :
    Abreast Eq (Context.Reordered scope scope') (c.specialize condition?)
      (c'.specialize condition?) := by
  rintro s _ rfl
  cases condition? with
  | none => exact ⟨.ok h, rfl⟩
  | some condition =>
      -- What is specialized for a condition starts without registrations, on either side.
      have hfresh := Context.Reordered.ofScope scope scope'
      have hsearch' : (scope'.config.enabled && condition.isOperation) =
          (scope.config.enabled && condition.isOperation) := by
        rw [hscope.config_eq]
      have hleft : c.specialize (some condition) =
          (Context.ofScope scope).specialize (some condition) :=
        specialize_congr h.scope_eq condition
      have hright : c'.specialize (some condition) =
          (Context.ofScope scope').specialize (some condition) :=
        specialize_congr h.scope_eq' condition
      rw [hleft, hright]
      rcases hsearch : scope.config.enabled && condition.isOperation with _ | _
      · rw [hsearch] at hsearch'
        rw [specialize_of_unsearched hsearch, specialize_of_unsearched hsearch']
        exact ⟨.ok hfresh, rfl⟩
      · rw [hsearch] at hsearch'
        obtain ⟨hanswer, hchild, hstate⟩ := Extension.discover_reordered hscope condition
          (.ofScope scope, s) (.ofScope scope', s) ⟨hfresh, rfl⟩
        rcases hrun : Extension.discover condition (.ofScope scope, s) with ⟨x, child, t⟩
        rcases hrun' : Extension.discover condition (.ofScope scope', s) with ⟨x', child', t'⟩
        rw [hrun, hrun'] at hanswer hchild hstate
        dsimp only at hanswer hchild hstate
        subst x' t'
        rcases x with e | n
        · rw [specialize_of_failure hsearch hrun, specialize_of_failure hsearch' hrun']
          exact ⟨.error e, rfl⟩
        · rw [specialize_of_discovered hsearch hrun, specialize_of_discovered hsearch' hrun']
          exact ⟨.ok hchild, rfl⟩

end Discovery

end IndexedQuery
