import IndexedQuery.Context.Discovery
import IndexedQuery.Proofs.Context.Resolution

namespace IndexedQuery

variable {σ α β : Type}

theorem Context.assess_eq_eligible {c : Context σ} {target key : Expr} {path : Path}
    {evaluator : Evaluator} (h : c.assess target key = .eligible path evaluator) :
    ∃ source name k slot,
      target = .path (.field source name k) ∧ path = .field source name k ∧
      rootSlot? c.scope.sources source = some slot ∧
      c.isIndexed (.path (.root source)) = false ∧
      key.boundBefore c.scope.sources slot = true ∧
      compile c.scope.sources key = .ok evaluator := by
  unfold assess at h
  split at h
  · rename_i source name k
    dsimp only at h
    split at h
    · cases h
    · rename_i slot hslot
      split at h
      · cases h
      · rename_i hindexed
        split at h
        · rename_i hbound
          split at h
          · rename_i evaluator' hcompile
            cases h
            exact ⟨source, name, k, slot, rfl, rfl, hslot, by simpa using hindexed, hbound,
              hcompile⟩
          · cases h
        · cases h
  · cases h

theorem Context.assess_eq_rejected {c : Context σ} {target key : Expr} {reason : Event}
    (h : c.assess target key = .rejected reason) (root : String) : reason ≠ .fullScan root := by
  rintro rfl
  unfold assess at h
  split at h
  · dsimp only at h
    split at h
    · cases h
    · split at h
      · cases h
      · split at h
        · split at h <;> cases h
        · cases h
  · cases h

namespace Extension

variable {c : Context σ} {s s' : Session σ}

theorem bind_context (f : Context σ → Extension σ α) (c : Context σ) (s : Session σ) :
    (context >>= f) (c, s) = f c (c, s) :=
  rfl

theorem within_apply (act : Run σ α) (c : Context σ) (s : Session σ) :
    within act (c, s) = ((act s).1, c, (act s).2) :=
  rfl

theorem on_apply {act : Extension σ α} {c' : Context σ} {answer : Except Error α}
    (h : act (c, s) = (answer, c', s')) :
    (liftM (act.on c) : Run σ (Except Error α × Context σ)) s = (.ok (answer, c'), s') := by
  change ((Except.ok ((act (c, s)).1, (act (c, s)).2.1), (act (c, s)).2.2) :
    Except Error (Except Error α × Context σ) × Session σ) = _
  rw [h]

theorem register_of_new {queried : Expr} (r : Registration)
    (h : c.isIndexed queried = false) :
    register queried r (c, s) =
      (.ok true, { c with registrations := c.registrations ++ [(queried, r)] },
        { s with log := .answeredBy queried r.path :: s.log }) := by
  unfold register
  rw [bind_context, if_neg (by simp [h])]
  rfl

theorem register_of_registered {queried : Expr} (r : Registration)
    (h : c.isIndexed queried = true) : register queried r (c, s) = (.ok false, c, s) := by
  unfold register
  rw [bind_context, if_pos h]
  rfl

section Pin

variable {target key : Expr} {path : Path} {evaluator : Evaluator}

theorem pin_of_unsuitable (h : c.assess target key = .unsuitable) :
    pin target key (c, s) = (.ok false, c, s) := by
  unfold pin
  rw [bind_context, h]
  rfl

theorem pin_of_rejected {reason : Event} (h : c.assess target key = .rejected reason) :
    pin target key (c, s) = (.ok false, c, { s with log := reason :: s.log }) := by
  unfold pin
  rw [bind_context, h]
  rfl

theorem pin_of_built {index : Index Value Row}
    (h : c.assess target key = .eligible path evaluator)
    (hbuild : c.buildIndex path s = (.ok index, s')) :
    pin target key (c, s) = register (.path path.toRoot) ⟨path, evaluator⟩ (c, s') := by
  unfold pin
  rw [bind_context, h]
  have hwithin : within (Run.orKeyError (c.buildIndex path)) (c, s) =
      (.ok (.ok index), c, s') := by
    rw [within_apply, Run.orKeyError_of_ok hbuild]
  exact bind_of_ok hwithin

theorem pin_of_key_error {text : String} {cause : Error}
    (h : c.assess target key = .eligible path evaluator)
    (hbuild : c.buildIndex path s = (.error (.indexKey text cause), s')) :
    pin target key (c, s) =
      (.ok false, c, { s' with log := .notIndexable path (.indexKey text cause) :: s'.log }) := by
  unfold pin
  rw [bind_context, h]
  have hwithin : within (Run.orKeyError (c.buildIndex path)) (c, s) =
      (.ok (.error (.indexKey text cause)), c, s') := by
    rw [within_apply, Run.orKeyError_of_error hbuild]
  exact bind_of_ok hwithin

end Pin

/-- A property that a computation has if its parts have it. Of the context at hand they may know the
registry. -/
structure Compositional (T : {α : Type} → Extension σ α → Prop) : Prop where
  pure : ∀ {α : Type} (a : α), T (Pure.pure a)
  bind : ∀ {α β : Type} {act : Extension σ α} {f : α → Extension σ β},
    T act → (∀ a, T (f a)) → T (act >>= f)
  context : ∀ {α : Type} {f : Context σ → Extension σ α},
    (∀ c c' : Context σ, c.scope.registry = c'.scope.registry → f c = f c') → (∀ c, T (f c)) →
      T (context >>= f)

section Compositional

variable {T : {α : Type} → Extension σ α → Prop} (hT : Compositional T)

include hT

mutual

theorem discover_of_pin : (e : Expr) →
    (∀ target key, (∀ p, target = .path p → .path p ∈ e.leaves) → T (pin target key)) →
      T (discover e)
  | .path _, _ | .constant _, _ | .param _, _ => hT.pure 0
  | .operation op args, hpin => by
      refine hT.context (fun c c' h => by simp only [h]) fun c => ?_
      dsimp only
      split
      · exact discoverAll_of_pin args hpin
      · split
        · split
          · rename_i left right
            -- Either side may be the target, the second one only if the first leads to nothing.
            have hleft : ∀ p, left = .path p → .path p ∈ Expr.leavesAll [left, right] := by
              rintro p rfl
              simp [Expr.leavesAll, Expr.leaves]
            have hright : ∀ p, right = .path p → .path p ∈ Expr.leavesAll [left, right] := by
              rintro p rfl
              simp [Expr.leavesAll, Expr.leaves]
            refine hT.bind (hpin left right hleft) fun first => ?_
            split
            · exact hT.pure 1
            · refine hT.bind (hpin right left hright) fun second => ?_
              split <;> exact hT.pure _
          · exact hT.pure 0
        · exact hT.pure 0

theorem discoverAll_of_pin : (es : List Expr) →
    (∀ target key, (∀ p, target = .path p → .path p ∈ Expr.leavesAll es) →
      T (pin target key)) → T (discoverAll es)
  | [], _ => hT.pure 0
  | e :: es, hpin => by
      simp only [discoverAll]
      have hhead := discover_of_pin e fun target key h =>
        hpin target key fun p hp => List.mem_append_left _ (h p hp)
      have htail := discoverAll_of_pin es fun target key h =>
        hpin target key fun p hp => List.mem_append_right _ (h p hp)
      exact hT.bind hhead fun n => hT.bind htail fun m => hT.pure _

end

end Compositional

theorem lockstep_compositional {R : Context σ × Session σ → Context σ × Session σ → Prop}
    (hR : ∀ state state', R state state' →
      state.1.scope.registry = state'.1.scope.registry) : Compositional (Lockstep R) where
  pure := .pure
  bind hact hf := hact.bind hf
  context {α f} hsame hf := by
    rintro ⟨c, s⟩ ⟨c', s'⟩ hstate
    rw [bind_context, bind_context, hsame c' c (hR _ _ hstate).symm]
    exact hf c (c, s) (c', s') hstate

/-- The same context of the scope, in related sessions. -/
def Related (scope : Scope σ) (R : Session σ → Session σ → Prop)
    (state state' : Context σ × Session σ) : Prop :=
  state.1 = state'.1 ∧ state.1.scope = scope ∧ R state.2 state'.2

section Lockstep

variable {scope : Scope σ} {R : Session σ → Session σ → Prop}

theorem within_lockstep {act : Run σ α} (h : Lockstep R act) :
    Lockstep (Related scope R) (within act) := by
  rintro ⟨c, s⟩ ⟨_, s'⟩ ⟨rfl, hscope, hs⟩
  obtain ⟨hanswer, hstate⟩ := h s s' hs
  exact ⟨hanswer, rfl, hscope, hstate⟩

theorem bind_context_lockstep {f : Context σ → Extension σ α}
    (hf : ∀ c, c.scope = scope → Lockstep (Related scope R) (f c)) :
    Lockstep (Related scope R) (context >>= f) := by
  rintro ⟨c, s⟩ ⟨_, s'⟩ ⟨rfl, hscope, hs⟩
  exact hf c hscope (c, s) (c, s') ⟨rfl, hscope, hs⟩

section Reports

variable (hreport : ∀ e : Event, (∀ root, e ≠ .fullScan root) → Lockstep R (Run.report e))

include hreport

theorem register_lockstep_of (queried : Expr) (r : Registration) :
    Lockstep (Related scope R) (register queried r) := by
  apply bind_context_lockstep
  intro c _
  split
  · exact .pure false
  · refine (within_lockstep (hreport _ (by simp))).bind fun _ => .bind ?_ fun _ => .pure true
    rintro ⟨c, s⟩ ⟨_, s'⟩ ⟨rfl, hscope, hs⟩
    exact ⟨rfl, rfl, hscope, hs⟩

theorem pin_lockstep_of {target key : Expr}
    (hbuild : ∀ c : Context σ, c.scope = scope → ∀ path evaluator,
      c.assess target key = .eligible path evaluator → Lockstep R (c.buildIndex path)) :
    Lockstep (Related scope R) (pin target key) := by
  apply bind_context_lockstep
  intro c hscope
  split
  · exact .pure false
  · rename_i hassess
    have hreason := Context.assess_eq_rejected hassess
    exact (within_lockstep (hreport _ hreason)).bind fun _ => .pure false
  · rename_i hassess
    refine (within_lockstep (Run.orKeyError_lockstep (hbuild c hscope _ _ hassess))).bind
      fun answer => ?_
    split
    · exact (within_lockstep (hreport _ (by simp))).bind fun _ => .pure false
    · exact register_lockstep_of hreport _ _

end Reports

/-- Discovery runs in lockstep if its candidates do, whose targets are leaves of the condition. -/
theorem discover_lockstep_of (e : Expr)
    (hpin : ∀ target key, (∀ p, target = .path p → .path p ∈ e.leaves) →
      Lockstep (Related scope R) (pin target key)) : Lockstep (Related scope R) (discover e) := by
  refine discover_of_pin (T := Lockstep (Related scope R)) (lockstep_compositional ?_) e hpin
  rintro ⟨c, s⟩ ⟨_, s'⟩ ⟨rfl, -, -⟩
  rfl

theorem on_lockstep {act : Extension σ α} (h : Lockstep (Related scope R) act) {c : Context σ}
    (hscope : c.scope = scope) :
    Lockstep R (liftM (act.on c) : Run σ (Except Error α × Context σ)) := by
  intro s s' hs
  obtain ⟨hanswer, hchild, -, hstate⟩ := h (c, s) (c, s') ⟨rfl, hscope, hs⟩
  exact ⟨congrArg Except.ok (Prod.ext hanswer hchild), hstate⟩

theorem discover_lockstep (hR : Session.Bisimulation scope.source R) (e : Expr) :
    Lockstep (Related scope R) (discover e) := by
  apply discover_lockstep_of
  intro target key _
  apply pin_lockstep_of fun e _ => hR.report e
  rintro c rfl path _ _
  exact hR.buildIndex c rfl path

end Lockstep

end Extension

namespace Context

variable {c : Context σ} {s : Session σ} {condition : Expr}

theorem specialize_of_unsearched
    (h : (c.scope.config.enabled && condition.isOperation) = false) :
    c.specialize (some condition) s = (.ok (.ofScope c.scope), s) := by
  simp only [specialize, h]
  rfl

theorem specialize_of_discovered {child : Context σ} {s' : Session σ} {n : Nat}
    (h : (c.scope.config.enabled && condition.isOperation) = true)
    (hdiscover : Extension.discover condition (.ofScope c.scope, s) = (.ok n, child, s')) :
    c.specialize (some condition) s =
      (.ok child, { s' with log := .specialized condition n :: s'.log }) := by
  simp only [specialize, h, if_true]
  exact bind_of_ok (Extension.on_apply hdiscover)

theorem specialize_of_failure {child : Context σ} {s' : Session σ} {e : Error}
    (h : (c.scope.config.enabled && condition.isOperation) = true)
    (hdiscover : Extension.discover condition (.ofScope c.scope, s) = (.error e, child, s')) :
    c.specialize (some condition) s = (.error e, s') := by
  simp only [specialize, h, if_true]
  exact bind_of_ok (Extension.on_apply hdiscover)

/-- The ways to specialize a context for a condition. -/
inductive Specializes (c : Context σ) (s : Session σ) (condition : Expr) :
    Except Error (Context σ) × Session σ → Prop where
  | unsearched (unsearched : (c.scope.config.enabled && condition.isOperation) = false) :
      Specializes c s condition (.ok (.ofScope c.scope), s)
  | discovered {child : Context σ} {s' : Session σ} {n : Nat}
      (searched : (c.scope.config.enabled && condition.isOperation) = true)
      (discovered : Extension.discover condition (.ofScope c.scope, s) = (.ok n, child, s')) :
      Specializes c s condition (.ok child, { s' with log := .specialized condition n :: s'.log })
  | failed {child : Context σ} {s' : Session σ} {e : Error}
      (searched : (c.scope.config.enabled && condition.isOperation) = true)
      (failed : Extension.discover condition (.ofScope c.scope, s) = (.error e, child, s')) :
      Specializes c s condition (.error e, s')

theorem specializes (c : Context σ) (s : Session σ) (condition : Expr) :
    c.Specializes s condition (c.specialize (some condition) s) := by
  rcases hsearch : c.scope.config.enabled && condition.isOperation with _ | _
  · rw [specialize_of_unsearched hsearch]
    exact .unsearched hsearch
  · rcases hdiscover : Extension.discover condition (.ofScope c.scope, s) with ⟨e | n, child, s'⟩
    · rw [specialize_of_failure hsearch hdiscover]
      exact .failed hsearch hdiscover
    · rw [specialize_of_discovered hsearch hdiscover]
      exact .discovered hsearch hdiscover

theorem specialize_lockstep_of {R : Session σ → Session σ → Prop}
    (hreport : ∀ e : Event, (∀ root, e ≠ .fullScan root) → Lockstep R (Run.report e))
    {condition? : Option Expr} (hdiscover : ∀ condition, condition? = some condition →
      Lockstep (Extension.Related c.scope R) (Extension.discover condition)) :
    Lockstep R (c.specialize condition?) := by
  cases condition? with
  | none => exact .pure c
  | some condition =>
      rcases hsearch : c.scope.config.enabled && condition.isOperation with _ | _
      · intro s s' hs
        rw [specialize_of_unsearched hsearch, specialize_of_unsearched hsearch]
        exact ⟨rfl, hs⟩
      · simp only [specialize, hsearch, if_true]
        refine (Extension.on_lockstep (hdiscover condition rfl) (c := .ofScope c.scope) rfl).bind
          fun (answer, child) => ?_
        exact (Run.lift_lockstep answer).bind fun n =>
          (hreport _ (by simp)).bind fun _ => .pure child

theorem specialize_lockstep {R : Session σ → Session σ → Prop}
    (hR : Session.Bisimulation c.scope.source R) (condition? : Option Expr) :
    Lockstep R (c.specialize condition?) :=
  specialize_lockstep_of (fun e _ => hR.report e) fun condition _ =>
    Extension.discover_lockstep hR condition

theorem specialize_congr {c c' : Context σ} (h : c.scope = c'.scope) (condition : Expr) :
    c.specialize (some condition) = c'.specialize (some condition) := by
  rcases c with ⟨scope, registrations⟩
  subst h
  rfl

theorem scope_of_specialize {condition? : Option Expr} {child : Context σ}
    (h : (c.specialize condition? s).1 = .ok child) : child.scope = c.scope := by
  cases condition? with
  | none =>
      cases h
      rfl
  | some condition =>
      have hspecializes := c.specializes s condition
      generalize c.specialize (some condition) s = outcome at h hspecializes
      cases hspecializes with
      | unsearched _ =>
          cases h
          rfl
      | discovered _ hdiscover =>
          have hR := (Session.Persistent.trivial c.scope.source).bisimulation
          obtain ⟨-, -, hscope, -⟩ := Extension.discover_lockstep hR condition
            (.ofScope c.scope, s) (.ofScope c.scope, s) ⟨rfl, rfl, rfl, .intro⟩
          rw [hdiscover] at hscope
          cases h
          exact hscope
      | failed _ _ => cases h

end Context

end IndexedQuery
