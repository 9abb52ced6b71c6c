import IndexedQuery.Proofs.Context.Pinning
import IndexedQuery.Proofs.Evaluator.Readiness
import IndexedQuery.Proofs.Session.Outcomes
import IndexedQuery.Proofs.Source.Faults

namespace IndexedQuery

variable {σ α : Type}

/-- The error is what a pass came to, or it stands in the place of a row. -/
inductive Source.Shows : Except Error Pass → Error → Prop where
  | whole (e : Error) : Shows (.error e) e
  | row {pass : Pass} {e : Error} (h : .error e ∈ pass) : Shows (.ok pass) e

theorem Source.Shows.outward {answer : Except Error Pass} {e : Error} (h : Shows answer e)
    (hanswer : Outward answer) (hitems : ∀ pass, answer = .ok pass → ∀ item ∈ pass, Outward item) :
    e.isInternal = false := by
  rcases h with _ | hrow
  · exact hanswer e rfl
  · exact hitems _ rfl _ hrow e rfl

/-- From `s` on no pass fails with an internal error, neither as a whole nor at a row. -/
def Source.FailsOutward (source : Source σ) (s : σ) : Prop :=
  ∀ passed name, Outward (source.pass (source.after s passed) name).1 ∧
    ∀ pass, (source.pass (source.after s passed) name).1 = .ok pass → ∀ item ∈ pass, Outward item

theorem Source.FailsOutward.pass {source : Source σ} {s : σ} (h : source.FailsOutward s)
    (name : String) : source.FailsOutward (source.pass s name).2 :=
  fun passed => h (name :: passed)

theorem Collections.faultySource_failsOutward (c : Collections) (faults : List Fault) :
    c.faultySource.FailsOutward faults := by
  have happly : ∀ (f : Fault) (rows : List Row), Outward (f.apply rows) ∧
      ∀ pass, f.apply rows = .ok pass → ∀ item ∈ pass, Outward item := by
    intro f rows
    unfold Fault.apply
    dsimp only
    split
    · exact ⟨.error rfl, fun pass hpass => by cases hpass⟩
    · refine ⟨.ok _, ?_⟩
      rintro _ ⟨⟩ item hitem
      rcases List.mem_or_eq_of_mem_set hitem with hrow | rfl
      · obtain ⟨row, -, rfl⟩ := List.mem_map.mp hrow
        exact .ok row
      · exact .error rfl
  intro passed name
  rw [faultySource_pass]
  rcases hrows : c.rows name with e | rows
  · refine ⟨?_, fun pass hpass => by cases hpass⟩
    unfold rows at hrows
    split at hrows
    · cases hrows
    · cases hrows
      exact .error rfl
  · dsimp only
    split
    · exact happly _ rows
    · refine ⟨.ok _, ?_⟩
      rintro _ ⟨⟩ item hitem
      obtain ⟨row, -, rfl⟩ := List.mem_map.mp hitem
      exact .ok row

/-- No row that is still to come is replaced by an internal error. -/
def Elements.FailsOutward (elements : Elements) : Prop :=
  ∀ item ∈ elements.toPass, Outward item

theorem Elements.failsOutward_indexed (rows : Cursor Row) : (indexed rows).FailsOutward := by
  intro item hitem
  obtain ⟨row, -, rfl⟩ := List.mem_map.mp hitem
  exact .ok row

namespace Session

abbrev FailsOutward (source : Source σ) (s : Session σ) : Prop :=
  source.FailsOutward s.source

theorem failsOutward_persistent (source : Source σ) : Persistent source (FailsOutward source) where
  log h _ := h
  afterPass h name := h.pass name
  keeping h _ _ := h.pass _

end Session

theorem Path.shows_of_indexOf_eq_error {path : Path} {k : Nat} {answer : Except Error Pass}
    {e : Error} (h : path.indexOf k answer = .error e) :
    (∃ text cause, e = .indexKey text cause) ∨ Source.Shows answer e := by
  rcases answer with e' | pass
  · cases h
    exact .inr (.whole _)
  · rcases Index.cause_of_build_eq_error h with hitem | ⟨row, hrow⟩
    · exact .inr (.row hitem)
    · rcases hfield : row.field k with cause | v
      · rw [hfield] at hrow
        cases hrow
        exact .inl ⟨path.text, cause, rfl⟩
      · rw [hfield] at hrow
        cases hrow

theorem Path.indexOf_eq_error {path : Path} {k : Nat} {answer : Except Error Pass} {e : Error}
    (hanswer : Outward answer) (hitems : ∀ pass, answer = .ok pass → ∀ item ∈ pass, Outward item)
    (h : path.indexOf k answer = .error e) :
    (∃ text cause, e = .indexKey text cause) ∨ e.isInternal = false :=
  (shows_of_indexOf_eq_error h).imp_right fun hshows => hshows.outward hanswer hitems

namespace Run

theorem read_outward (source : Source σ) (name : String) :
    Ensures (Session.FailsOutward source) (·.isInternal = false)
      (fun pass => ∀ item ∈ pass, Outward item) (read source name) := by
  intro s hs
  obtain ⟨hanswer, hitems⟩ := hs [] name
  rw [read_apply]
  refine ⟨hs.pass name, ?_⟩
  dsimp only
  split
  · rename_i pass hpass
    exact hitems pass hpass
  · rename_i e he
    exact hanswer e he

theorem report_ensures {P : Session σ → Prop} {E : Error → Prop}
    (hP : ∀ s log, P s → P { s with log }) (e : Event) :
    Ensures P E (fun _ => True) (report e) :=
  fun s hs => ⟨hP s _ hs, trivial⟩

theorem report_outward (source : Source σ) (e : Event) :
    Ensures (Session.FailsOutward source) (·.isInternal = false) (fun _ => True) (report e) :=
  report_ensures (fun _ _ hs => hs) e

end Run

theorem Scope.scan_outward (scope : Scope σ) (p : Path) :
    Ensures (Session.FailsOutward scope.source) (·.isInternal = false) Elements.FailsOutward
      (scope.scan (.path p)) :=
  (Run.report_outward scope.source _).bind fun _ _ =>
    (Run.read_outward scope.source p.rootName).bind fun _ hpass => .pure hpass

namespace Context

variable {c : Context σ}

theorem buildIndex_outward (path : Path) :
    Ensures (Session.FailsOutward c.scope.source)
      (fun e => (∃ text cause, e = .indexKey text cause) ∨ e.isInternal = false) (fun _ => True)
      (c.buildIndex path) := by
  intro s hs
  refine ⟨buildIndex_keeps (Session.failsOutward_persistent _) path s hs, ?_⟩
  rcases hkept : s.cache.get? path with _ | index
  · cases path with
    | root name =>
        rw [buildIndex_root hkept]
        exact .inr rfl
    | field collection name k =>
        rw [buildIndex_field hkept]
        obtain ⟨hanswer, hitems⟩ := hs [] collection
        rcases hindex : (Path.field collection name k).indexOf k
            (c.scope.source.pass s.source collection).1 with e | index
        · exact Path.indexOf_eq_error hanswer hitems hindex
        · trivial
  · rw [buildIndex_of_kept hkept]
    trivial

theorem indexFor_outward (path : Path) :
    Ensures (Session.FailsOutward c.scope.source) (·.isInternal = false) (fun _ => True)
      (c.indexFor path) := by
  have hbuild := Run.orKeyError_ensures (c.buildIndex_outward path) fun _ he => he
  intro s hs
  rcases hkept : s.cache.get? path with _ | index
  · rw [indexFor_of_absent hkept]
    exact hbuild.mono (fun _ _ => trivial) s hs
  · rw [indexFor_of_kept hkept]
    exact ⟨hs, trivial⟩

/-- A key that cannot be computed is no failure of the lookup, whatever the error. -/
theorem resolveUnder_outward (p : Path) (bindings : List Binding) :
    Ensures (Session.FailsOutward c.scope.source) (·.isInternal = false) Elements.FailsOutward
      (c.resolveUnder (.path p) bindings) := by
  have hscan := c.scope.scan_outward p
  have hreport := Run.report_outward c.scope.source
  rcases hreg : c.registration? (.path p) with _ | r
  · rw [resolveUnder_of_unregistered hreg]
    exact hscan
  · rw [resolveUnder_of_registered hreg]
    rcases r.key.evaluate bindings with e | key
    · exact (hreport _).bind fun _ _ => hscan
    · refine (c.indexFor_outward r.path).bind fun answer _ => ?_
      rcases answer with e | index
      · exact (hreport _).bind fun _ _ => hscan
      · dsimp only
        split
        · exact (hreport _).bind fun _ _ => .pure (Elements.failsOutward_indexed _)
        · exact (hreport _).bind fun _ _ => .pure (by simp [Elements.FailsOutward, Elements.toPass])

end Context

/-- An entry as discovery makes it. Its key is known by the time its source is iterated. -/
inductive Registration.Keyed (sources : List Expr) : Expr × Registration → Prop where
  | intro {source name : String} {k slot : Nat} {key : Expr} {evaluator : Evaluator}
      (slot_eq : rootSlot? sources source = some slot)
      (bound : key.boundBefore sources slot = true)
      (compiled : compile sources key = .ok evaluator) :
      Keyed sources (.path (.root source), ⟨.field source name k, evaluator⟩)

structure Context.Keyed (scope : Scope σ) (c : Context σ) : Prop where
  scope_eq : c.scope = scope
  keyed : ∀ entry ∈ c.registrations, Registration.Keyed scope.sources entry

theorem Context.Keyed.registration {scope : Scope σ} {c : Context σ} (hc : c.Keyed scope)
    {p : Path} {r : Registration} (h : c.registration? (.path p) = some r) :
    ∃ source, p = .root source ∧ Registration.Keyed scope.sources (.path (.root source), r) := by
  obtain ⟨entry, hentry, rfl, hqueried⟩ := exists_of_registration? h
  have hkeyed := hc.keyed entry hentry
  cases hkeyed with
  | @intro source name k slot key evaluator hslot hbound hcompile =>
      exact ⟨source, (Expr.path_beq_path.mp hqueried).symm, .intro hslot hbound hcompile⟩

namespace Extension

variable {scope : Scope σ} {P : Session σ → Prop} {E E' : Error → Prop} {Q : α → Prop}

def Sound (scope : Scope σ) (P : Session σ → Prop) (state : Context σ × Session σ) : Prop :=
  state.1.Keyed scope ∧ P state.2

theorem within_ensures {act : Run σ α} (h : Ensures P E Q act) :
    Ensures (Sound scope P) E Q (within act) := by
  rintro ⟨c, s⟩ ⟨hc, hs⟩
  obtain ⟨hkept, houtcome⟩ := h s hs
  exact ⟨⟨hc, hkept⟩, houtcome⟩

theorem context_ensures : Ensures (Sound scope P) E (Context.Keyed scope) context :=
  fun _ hstate => ⟨hstate, hstate.1⟩

theorem sound_compositional :
    Compositional fun {α} (act : Extension σ α) =>
      Ensures (Sound scope P) E (fun _ => True) act where
  pure _ := .pure trivial
  bind hact hf := hact.bind fun a _ => hf a
  context _ hf := context_ensures.bind fun c _ => hf c

section Pin

variable (hlog : ∀ s log, P s → P { s with log })

include hlog

theorem register_sound {queried : Expr} {r : Registration}
    (hentry : Registration.Keyed scope.sources (queried, r)) :
    Ensures (Sound scope P) E (fun _ => True) (register queried r) := by
  refine context_ensures.bind fun c _ => ?_
  split
  · exact .pure trivial
  · refine (within_ensures (Run.report_ensures hlog _)).bind fun _ _ => ?_
    refine Ensures.bind (Q := fun _ => True) ?_ fun _ _ => .pure trivial
    rintro ⟨c, s⟩ ⟨hc, hs⟩
    refine ⟨⟨⟨hc.scope_eq, ?_⟩, hs⟩, trivial⟩
    exact List.forall_mem_append.mpr ⟨hc.keyed, by simpa using hentry⟩

/-- What a candidate adds is an entry whose key is known in time, and all it fails with is that its
index cannot be built for another reason than a missing key. -/
theorem pin_sound
    (hbuild : ∀ c : Context σ, c.scope = scope → ∀ path,
      Ensures P E' (fun _ => True) (c.buildIndex path))
    (hE : ∀ e, E' e → (∃ text cause, e = .indexKey text cause) ∨ E e) (target key : Expr) :
    Ensures (Sound scope P) E (fun _ => True) (pin target key) := by
  refine context_ensures.bind fun c hc => ?_
  split
  · exact .pure trivial
  · exact (within_ensures (Run.report_ensures hlog _)).bind fun _ _ => .pure trivial
  · rename_i path evaluator hassess
    have hindex := Run.orKeyError_ensures (hbuild c hc.scope_eq path) hE
    refine (within_ensures hindex).bind fun answer _ => ?_
    split
    · exact (within_ensures (Run.report_ensures hlog _)).bind fun _ _ => .pure trivial
    · obtain ⟨source, name, k, slot, -, rfl, hslot, -, hbound, hcompile⟩ :=
        Context.assess_eq_eligible hassess
      rw [hc.scope_eq] at hslot hbound hcompile
      exact register_sound hlog (.intro hslot hbound hcompile)

end Pin

end Extension

namespace Context

variable {c : Context σ} {P : Session σ → Prop} {E : Error → Prop}

theorem keyed_ofScope (scope : Scope σ) : (ofScope scope).Keyed scope :=
  ⟨rfl, by simp [ofScope]⟩

theorem specialize_ensures (hlog : ∀ s log, P s → P { s with log }) (hc : c.Keyed c.scope)
    {condition? : Option Expr} (hdiscover : ∀ condition, condition? = some condition →
      Ensures (Extension.Sound c.scope P) E (fun _ => True) (Extension.discover condition)) :
    Ensures P E (Context.Keyed c.scope) (c.specialize condition?) := by
  cases condition? with
  | none => exact .pure hc
  | some condition =>
      intro s hs
      obtain ⟨⟨hchild, hs'⟩, houtcome⟩ := hdiscover condition rfl (.ofScope c.scope, s)
        ⟨keyed_ofScope c.scope, hs⟩
      have hspecializes := c.specializes s condition
      generalize c.specialize (some condition) s = outcome at hspecializes ⊢
      cases hspecializes with
      | unsearched _ => exact ⟨hs, keyed_ofScope c.scope⟩
      | discovered _ hrun =>
          rw [hrun] at hchild hs'
          exact ⟨hlog _ _ hs', hchild⟩
      | failed _ hrun =>
          rw [hrun] at houtcome hs'
          exact ⟨hs', houtcome⟩

theorem specialize_keyed (hc : c.Keyed c.scope) (condition? : Option Expr) :
    Ensures (fun _ => True) (fun _ => True) (Context.Keyed c.scope) (c.specialize condition?) := by
  apply specialize_ensures (fun _ _ _ => trivial) hc
  intro condition _
  apply Extension.discover_of_pin Extension.sound_compositional
  intro target key _
  have hbuild := fun (c' : Context σ) (_ : c'.scope = c.scope) (path : Path) =>
    (c'.buildIndex_keeps (.trivial _) path).ensures
  exact Extension.pin_sound (fun _ _ _ => trivial) hbuild (fun _ _ => .inr trivial) target key

theorem specialize_outward (hc : c.Keyed c.scope) (condition? : Option Expr) :
    Ensures (Session.FailsOutward c.scope.source) (·.isInternal = false) (Context.Keyed c.scope)
      (c.specialize condition?) := by
  apply specialize_ensures (fun _ _ hs => hs) hc
  intro condition _
  apply Extension.discover_of_pin Extension.sound_compositional
  intro target key _
  apply Extension.pin_sound (fun _ _ hs => hs) _ (fun _ he => he)
  intro c' hscope path
  rw [← hscope]
  exact c'.buildIndex_outward path

end Context

end IndexedQuery
