import IndexedQuery.Proofs.Context.Failures
import IndexedQuery.Proofs.Runner.Reachable

/-!
Resolution without bindings. It is refused where the key of a registered source depends on them, and
nothing is done then; everywhere else it is resolution under any bindings.
-/

namespace IndexedQuery

variable {σ α β : Type}

/-- Among the passes that were made one showed the error. -/
inductive Source.Blames (source : Source σ) (state : σ) (passed : List String) (e : Error) :
    Prop where
  | intro {earlier later : List String} {name : String}
      (passed_eq : passed = earlier ++ name :: later)
      (shows : Source.Shows (source.pass (source.after state earlier) name).1 e)

/-- From `state` on some pass may show the error. -/
def Source.Raises (source : Source σ) (state : σ) (e : Error) : Prop :=
  ∃ passed, source.Blames state passed e

namespace Source

variable {source : Source σ} {state : σ} {passed : List String} {e : Error}

theorem not_blames_nil : ¬ source.Blames state [] e := by
  rintro ⟨passed_eq, -⟩
  simp at passed_eq

theorem Blames.here {name : String} (shows : Shows (source.pass state name).1 e)
    (later : List String) : source.Blames state (name :: later) e :=
  .intro (List.nil_append (name :: later)).symm shows

theorem Blames.prepend {before : List String}
    (h : source.Blames (source.after state before) passed e) :
    source.Blames state (before ++ passed) e := by
  obtain ⟨rfl, shows⟩ := h
  rw [← after_append] at shows
  exact .intro (List.append_assoc ..).symm shows

theorem FailsOutward.not_raises (h : source.FailsOutward state) (hinternal : e.isInternal = true) :
    ¬ source.Raises state e := by
  rintro ⟨_, @⟨earlier, later, name, rfl, shows⟩⟩
  obtain ⟨hanswer, hitems⟩ := h earlier name
  exact Bool.false_ne_true ((shows.outward hanswer hitems).symm.trans hinternal)

end Source

/-- What a session has come to by some passes. If that is a failure, the error is among `E` or was
shown by one of the passes. -/
structure Session.Traces (source : Source σ) (E : Error → Prop) (s : Session σ)
    (passed : List String) (outcome : Except Error α × Session σ) : Prop where
  source_eq : outcome.2.source = source.after s.source passed
  passes_eq : outcome.2.passes = passed.reverse ++ s.passes
  cause : ∀ e, outcome.1 = .error e → E e ∨ source.Blames s.source passed e

/-- From every session the computation comes to what can be traced to passes. -/
def Traceable (source : Source σ) (E : Error → Prop) (act : Run σ α) : Prop :=
  ∀ s : Session σ, ∃ passed, s.Traces source E passed (act s)

theorem Session.Traces.afterPass {source : Source σ} {E : Error → Prop} {s s' : Session σ}
    {name : String} {answer : Except Error α}
    (hsource : s'.source = (s.afterPass source name).source)
    (hpasses : s'.passes = (s.afterPass source name).passes)
    (hanswer : ∀ e, answer = .error e → E e ∨ Source.Shows (source.pass s.source name).1 e) :
    s.Traces source E [name] (answer, s') where
  source_eq := hsource
  passes_eq := hpasses
  cause e he := (hanswer e he).imp_right (.here · [])

namespace Traceable

variable {source : Source σ} {E E' : Error → Prop} {act : Run σ α}

theorem pure (a : α) : Traceable source E (Pure.pure a : Run σ α) :=
  fun _ => ⟨[], rfl, rfl, nofun⟩

theorem throw {e : Error} (h : E e) : Traceable source E (throw e : Run σ α) := by
  intro s
  refine ⟨[], rfl, rfl, ?_⟩
  rintro _ ⟨⟩
  exact .inl h

theorem bind {f : α → Run σ β} (hact : Traceable source E act)
    (hf : ∀ a, Traceable source E (f a)) : Traceable source E (act >>= f) := by
  intro s
  obtain ⟨passed, hsource, hpasses, hfails⟩ := hact s
  rcases hrun : act s with ⟨e | a, s'⟩
  · rw [hrun] at hsource hpasses hfails
    rw [bind_of_error hrun]
    refine ⟨passed, hsource, hpasses, ?_⟩
    rintro _ ⟨⟩
    exact hfails e rfl
  · rw [hrun] at hsource hpasses
    rw [bind_of_ok hrun]
    obtain ⟨more, hsource', hpasses', hfails'⟩ := hf a s'
    rw [hsource] at hsource' hfails'
    refine ⟨passed ++ more, ?_, ?_, ?_⟩
    · rw [hsource', source.after_append]
    · rw [hpasses', hpasses]
      simp
    · intro e he
      exact (hfails' e he).imp_right Source.Blames.prepend

theorem mono (h : Traceable source E act) (hE : ∀ e, E e → E' e) :
    Traceable source E' act := by
  intro s
  obtain ⟨passed, hsource, hpasses, hfails⟩ := h s
  exact ⟨passed, hsource, hpasses, fun e he => (hfails e he).imp_left (hE e)⟩

theorem report (e : Event) : Traceable source E (Run.report e : Run σ Unit) :=
  fun _ => ⟨[], rfl, rfl, nofun⟩

theorem read (name : String) : Traceable source E (Run.read source name) := by
  intro s
  refine ⟨_, .afterPass rfl rfl fun e he => .inr ?_⟩
  have hpass : (source.pass s.source name).1 = .error e := he
  rw [hpass]
  exact .whole e

theorem orKeyError (h : Traceable source E act)
    (hE : ∀ e, E e → (∃ text cause, e = .indexKey text cause) ∨ E' e) :
    Traceable source E' (Run.orKeyError act) := by
  intro s
  obtain ⟨passed, hsource, hpasses, hfails⟩ := h s
  rcases hact : act s with ⟨e | a, s'⟩
  · rw [hact] at hsource hpasses hfails
    rw [Run.orKeyError_of_error hact]
    split
    · exact ⟨passed, hsource, hpasses, nofun⟩
    · rename_i hother
      refine ⟨passed, hsource, hpasses, ?_⟩
      rintro _ ⟨⟩
      refine (hfails e rfl).imp_left fun he => (hE e he).resolve_left ?_
      rintro ⟨text, cause, rfl⟩
      exact hother text cause hact rfl .rfl
  · rw [hact] at hsource hpasses
    rw [Run.orKeyError_of_ok hact]
    exact ⟨passed, hsource, hpasses, nofun⟩

end Traceable

theorem Scope.scan_traceable (scope : Scope σ) (e : Expr) :
    Traceable scope.source (· = .notASource e.text) (scope.scan e) := by
  cases e with
  | path p => exact (Traceable.report _).bind fun _ => (Traceable.read _).bind fun _ => .pure _
  | _ => exact .throw rfl

namespace Context

variable {c : Context σ} {queried : Expr} {r : Registration}

theorem buildIndex_traceable (path : Path) :
    Traceable c.scope.source
      (fun e => (∃ text cause, e = .indexKey text cause) ∨ ∃ name, e = .notAValue name)
      (c.buildIndex path) := by
  intro s
  rcases hkept : s.cache.get? path with _ | index
  · cases path with
    | root name =>
        rw [buildIndex_root hkept]
        refine ⟨[], rfl, rfl, ?_⟩
        rintro _ ⟨⟩
        exact .inl (.inr ⟨name, rfl⟩)
    | field collection name k =>
        rw [buildIndex_field hkept]
        rcases hindex : (Path.field collection name k).indexOf k
            (c.scope.source.pass s.source collection).1 with e | index
        · refine ⟨_, .afterPass rfl rfl ?_⟩
          rintro _ ⟨⟩
          exact (Path.shows_of_indexOf_eq_error hindex).imp_left .inl
        · exact ⟨_, .afterPass rfl rfl nofun⟩
  · rw [buildIndex_of_kept hkept]
    exact ⟨[], rfl, rfl, nofun⟩

theorem indexFor_traceable (path : Path) :
    Traceable c.scope.source (fun e => ∃ name, e = .notAValue name) (c.indexFor path) := by
  intro s
  rcases hkept : s.cache.get? path with _ | index
  · rw [indexFor_of_absent hkept]
    exact (c.buildIndex_traceable path).orKeyError (fun _ he => he) s
  · rw [indexFor_of_kept hkept]
    exact ⟨[], rfl, rfl, nofun⟩

/-- Apart from what the source shows, a lookup fails only where it falls back on scanning something
else than a source, and where the registered path is no field. -/
theorem lookup_traceable (queried : Expr) (r : Registration) (key : Outcome) :
    Traceable c.scope.source (fun e => e = .notASource queried.text ∨ ∃ name, e = .notAValue name)
      (c.lookup queried r key) := by
  have hscan : Traceable c.scope.source
      (fun e => e = .notASource queried.text ∨ ∃ name, e = .notAValue name)
      (c.scope.scan queried) :=
    (c.scope.scan_traceable queried).mono fun _ => .inl
  rcases key with e | v
  · exact (Traceable.report _).bind fun _ => hscan
  · refine ((c.indexFor_traceable r.path).mono fun _ => .inr).bind fun index => ?_
    rcases index with e | index
    · exact (Traceable.report _).bind fun _ => hscan
    · dsimp only
      split
      · exact (Traceable.report _).bind fun _ => .pure _
      · exact (Traceable.report _).bind fun _ => .pure _

theorem resolveUnder_traceable (queried : Expr) (bindings : List Binding) :
    Traceable c.scope.source (fun e => e = .notASource queried.text ∨ ∃ name, e = .notAValue name)
      (c.resolveUnder queried bindings) := by
  rcases hreg : c.registration? queried with _ | r
  · rw [resolveUnder_of_unregistered hreg]
    exact (c.scope.scan_traceable queried).mono fun _ => .inl
  · rw [resolveUnder_of_registered hreg]
    exact c.lookup_traceable queried r _

/-! ## With bindings and without -/

/-- The expression is registered under a key that depends on bindings. -/
def NeedsBindings (c : Context σ) (queried : Expr) : Prop :=
  ∃ r, c.registration? queried = some r ∧ r.key.isStatic = false

theorem resolve_of_needsBindings (h : c.NeedsBindings queried) :
    c.resolve queried = throw (.missingBindings queried.text) := by
  obtain ⟨⟨path, key⟩, hreg, hbound⟩ := h
  cases key with
  | static term => cases hbound
  | bound term dependencies => simp only [resolve, hreg, Evaluator.static?]

theorem resolve_eq_resolveUnder (h : ¬ c.NeedsBindings queried) (bindings : List Binding) :
    c.resolve queried = c.resolveUnder queried bindings := by
  rcases hreg : c.registration? queried with _ | ⟨path, term | ⟨term, dependencies⟩⟩
  · simp only [resolve, resolveUnder, hreg]
  · simp only [resolve, resolveUnder, hreg, Evaluator.static?, Evaluator.evaluate]
  · exact absurd ⟨_, hreg, rfl⟩ h

theorem blames_of_resolve {s s' : Session σ} (h : ¬ c.NeedsBindings queried)
    (hresolve : c.resolve queried s = (.error (.missingBindings queried.text), s')) :
    ∃ passed, s'.passes = passed.reverse ++ s.passes ∧
      c.scope.source.Blames s.source passed (.missingBindings queried.text) := by
  rw [resolve_eq_resolveUnder h []] at hresolve
  obtain ⟨passed, -, hpasses, hfails⟩ := c.resolveUnder_traceable queried [] s
  rw [hresolve] at hpasses hfails
  refine ⟨passed, hpasses, (hfails _ rfl).resolve_left ?_⟩
  rintro (hsource | ⟨name, hname⟩)
  · cases hsource
  · cases hname

theorem resolve_refuses_iff {s : Session σ} :
    c.resolve queried s = (.error (.missingBindings queried.text), s) ↔
      c.NeedsBindings queried := by
  constructor
  · intro hresolve
    by_contra hneeds
    obtain ⟨passed, hpasses, hblames⟩ := blames_of_resolve hneeds hresolve
    have hnone : passed = [] := by simpa using hpasses
    rw [hnone] at hblames
    exact Source.not_blames_nil hblames
  · intro hneeds
    rw [resolve_of_needsBindings hneeds]
    rfl

theorem resolve_fails_iff {s : Session σ}
    (hquiet : ¬ c.scope.source.Raises s.source (.missingBindings queried.text)) :
    (c.resolve queried s).1 = .error (.missingBindings queried.text) ↔
      c.NeedsBindings queried := by
  constructor
  · intro hresolve
    by_contra hneeds
    obtain ⟨passed, -, hblames⟩ := blames_of_resolve hneeds (Prod.ext hresolve rfl)
    exact hquiet ⟨passed, hblames⟩
  · intro hneeds
    rw [resolve_refuses_iff.mpr hneeds]

end Context

namespace ContextTree

/-- Without bindings resolution comes to what it comes to under any, except for an expression whose
key depends on them. That is refused, and the refusal leaves everything as it is: no index is built
and no pass is made. No other failure says that bindings are missing, unless the source says so
itself in a pass. -/
theorem resolve_refuses_or_agrees (t : ContextTree σ) (h : t.Handle) (e : Expr) :
    (t.resolve h e = (.error (.missingBindings e.text), t) ↔
      (t.contexts.get h).NeedsBindings e) ∧
    (¬ (t.contexts.get h).scope.source.Raises t.session.source (.missingBindings e.text) →
      ((t.resolve h e).1 = .error (.missingBindings e.text) ↔
        (t.contexts.get h).NeedsBindings e)) ∧
    (¬ (t.contexts.get h).NeedsBindings e →
      ∀ bindings, t.resolve h e = t.resolveUnder h e bindings) := by
  refine ⟨⟨fun hresolve => ?_, fun hneeds => ?_⟩, fun hquiet => ?_, fun hneeds bindings => ?_⟩
  · exact Context.resolve_refuses_iff.mp (apply_of_run hresolve)
  · exact congrArg t.run (Context.resolve_of_needsBindings hneeds)
  · exact Context.resolve_fails_iff hquiet
  · exact congrArg t.run (Context.resolve_eq_resolveUnder hneeds bindings)

/-- The cats are registered under a constant in the first context. In another, which took two
attempts to make, their key is a parameter. -/
def keyedCats : ContextTree (List Fault) :=
  let valIsX : Expr := .operation (.comparison .eq) [.path (.field "cat" "val" 1), .param "x"]
  (ofScope flakyScope [unreadableCat]).after
    [(0, .register (.path (.root "cat"))
        ⟨.field "cat" "val" 1, .static (.constant (.int64 2))⟩),
      (0, .specialize (some valIsX)), (0, .specialize (some valIsX))]

theorem resolve_keyedCats :
    let cat : Expr := .path (.root "cat")
    keyedCats.resolve ⟨1, by decide⟩ cat = (.error (.missingBindings cat.text), keyedCats) ∧
      (keyedCats.resolve ⟨0, by decide⟩ cat).1 ≠ .error (.missingBindings cat.text) ∧
      (∀ bindings, keyedCats.resolve ⟨0, by decide⟩ cat =
        keyedCats.resolveUnder ⟨0, by decide⟩ cat bindings) ∧
      (keyedCats.resolve ⟨0, by decide⟩ cat).1 = .ok (.ofRows [⟨3, [.string "c", .int64 2]⟩]) := by
  intro cat
  have hneeds : (keyedCats.contexts.get ⟨1, by decide⟩).NeedsBindings cat :=
    ⟨⟨.field "cat" "val" 1, .bound (.param 1) [1]⟩, rfl, rfl⟩
  have hstatic : ¬ (keyedCats.contexts.get ⟨0, by decide⟩).NeedsBindings cat := by
    rintro ⟨_, ⟨⟩, ⟨⟩⟩
  have hscope : (keyedCats.contexts.get ⟨0, by decide⟩).scope = flakyScope := rfl
  obtain ⟨hrefused, -, -⟩ := resolve_refuses_or_agrees keyedCats ⟨1, by decide⟩ cat
  obtain ⟨-, hanswers, hagrees⟩ := resolve_refuses_or_agrees keyedCats ⟨0, by decide⟩ cat
  rw [hscope] at hanswers
  have hquiet : ¬ flakyScope.source.Raises keyedCats.session.source (.missingBindings cat.text) :=
    Source.FailsOutward.not_raises (cats.faultySource_failsOutward _) rfl
  exact ⟨hrefused.mpr hneeds, fun hfails => hstatic ((hanswers hquiet).mp hfails), hagrees hstatic,
    rfl⟩

end ContextTree

end IndexedQuery
