import IndexedQuery.Proofs.Context.Specialization
import IndexedQuery.Proofs.Session.Accrual

namespace IndexedQuery

variable {σ α : Type}

namespace Context

variable {c c' c'' : Context σ} {added more : List (Expr × Registration)}

def adding (c : Context σ) (added : List (Expr × Registration)) : Context σ :=
  { c with registrations := c.registrations ++ added }

@[simp] theorem adding_nil (c : Context σ) : c.adding [] = c := by
  simp [adding]

@[simp] theorem scope_adding (c : Context σ) (added : List (Expr × Registration)) :
    (c.adding added).scope = c.scope :=
  rfl

theorem isIndexed_eq_false {queried : Expr} :
    c.isIndexed queried = false ↔ ∀ entry ∈ c.registrations, (entry.1 == queried) = false := by
  rw [isIndexed, registration?, Option.isSome_map, List.isSome_find?, List.any_eq_false]
  simp

theorem registration?_eq_none {queried : Expr} :
    c.registration? queried = none ↔ c.isIndexed queried = false := by
  rw [isIndexed, Option.isSome_eq_false_iff, Option.isNone_iff_eq_none]

theorem registration?_adding (c : Context σ) (added : List (Expr × Registration))
    (queried : Expr) :
    (c.adding added).registration? queried =
      (c.registration? queried).or ((added.find? (·.1 == queried)).map (·.2)) := by
  rw [registration?, adding, List.find?_append, Option.map_or]
  rfl

/-- The second context is the first one with some registrations added, for expressions that had none
and of which no two are the same. -/
structure Gains (c : Context σ) (added : List (Expr × Registration)) (c' : Context σ) : Prop where
  eq_adding : c' = c.adding added
  fresh : ∀ entry ∈ added, c.isIndexed entry.1 = false
  distinct : added.Pairwise fun entry entry' => (entry.1 == entry'.1) = false

namespace Gains

theorem nothing (c : Context σ) : c.Gains [] c :=
  ⟨c.adding_nil.symm, by simp, .nil⟩

theorem single {queried : Expr} (hnew : c.isIndexed queried = false) (r : Registration) :
    c.Gains [(queried, r)] (c.adding [(queried, r)]) :=
  ⟨rfl, by simpa using hnew, List.pairwise_singleton _ _⟩

theorem trans (h : c.Gains added c') (h' : c'.Gains more c'') : c.Gains (added ++ more) c'' := by
  obtain ⟨rfl, hfresh, hdistinct⟩ := h
  obtain ⟨rfl, hfresh', hdistinct'⟩ := h'
  have hunregistered : ∀ entry ∈ more, ∀ earlier ∈ c.registrations ++ added,
      (earlier.1 == entry.1) = false :=
    fun entry hentry => isIndexed_eq_false.mp (hfresh' entry hentry)
  refine ⟨by simp [adding], ?_, ?_⟩
  · refine List.forall_mem_append.mpr ⟨hfresh, fun entry hentry => ?_⟩
    exact isIndexed_eq_false.mpr fun earlier hearlier =>
      hunregistered entry hentry earlier (List.mem_append_left added hearlier)
  · refine List.pairwise_append.mpr ⟨hdistinct, hdistinct', ?_⟩
    exact fun earlier hearlier entry hentry =>
      hunregistered entry hentry earlier (List.mem_append_right c.registrations hearlier)

theorem scope_eq (h : c.Gains added c') : c'.scope = c.scope := by
  rw [h.eq_adding, scope_adding]

theorem unique (h : c.Gains added c') (h' : c.Gains more c') : added = more :=
  List.append_cancel_left (congrArg registrations (h.eq_adding.symm.trans h'.eq_adding))

theorem registrations_of_nothing (h : c.Gains added c') (hnothing : c.registrations = []) :
    c'.registrations = added := by
  rw [h.eq_adding, adding, hnothing, List.nil_append]

theorem registration? (h : c.Gains added c') {queried : Expr} {r : Registration}
    (hr : c.registration? queried = some r) : c'.registration? queried = some r := by
  rw [h.eq_adding, registration?_adding, hr]
  rfl

theorem isIndexed (h : c.Gains added c') {queried : Expr} (hindexed : c.isIndexed queried = true) :
    c'.isIndexed queried = true := by
  obtain ⟨r, hr⟩ := Option.isSome_iff_exists.mp hindexed
  exact Option.isSome_iff_exists.mpr ⟨r, h.registration? hr⟩

end Gains

theorem buildIndex_accrues {s s' : Session σ} {path : Path} {x : Except Error (Index Value Row)}
    (h : c.buildIndex path s = (x, s')) :
    ∃ passed fresh, s.Accrues c.scope.source passed fresh s' ∧
      (∀ entry ∈ fresh, entry.1 = path) ∧ ∀ e, x = .error e → fresh = [] := by
  have hnothing := Session.Accrues.nothing c.scope.source s
  rcases hkept : s.cache.get? path with _ | kept
  · cases path with
    | root name =>
        rw [buildIndex_root hkept] at h
        cases h
        exact ⟨[], [], hnothing, by simp, fun _ _ => rfl⟩
    | field collection name k =>
        rw [buildIndex_field hkept] at h
        rcases hindex : (Path.field collection name k).indexOf k
            (c.scope.source.pass s.source collection).1 with e | index
        · rw [hindex] at h
          cases h
          exact ⟨_, [], hnothing.afterPass collection, by simp, fun _ _ => rfl⟩
        · rw [hindex] at h
          cases h
          exact ⟨_, _, hnothing.keeping hkept hindex, by simp, by simp⟩
  · rw [buildIndex_of_kept hkept] at h
    cases h
    exact ⟨[], [], hnothing.log _, by simp, fun _ _ => rfl⟩

end Context

/-- What a session has kept for the registrations that a context has gained in it: all that it kept
before, and a complete index for each of them, but nothing else. -/
structure Session.KeepsFor (source : Source σ) (made : List (Expr × Registration))
    (s s' : Session σ) : Prop where
  accrues : ∃ passed fresh, s.Accrues source passed fresh s' ∧
    ∀ entry ∈ fresh, ∃ registered ∈ made, registered.2.path = entry.1
  contains : ∀ registered ∈ made, s'.cache.contains registered.2.path = true

namespace Session.KeepsFor

variable {source : Source σ} {made more : List (Expr × Registration)} {s s' s'' : Session σ}

theorem nothing (source : Source σ) (s : Session σ) : s.KeepsFor source [] s :=
  ⟨⟨[], [], .nothing source s, by simp⟩, by simp⟩

theorem log (h : s.KeepsFor source made s') (log : List Event) :
    s.KeepsFor source made { s' with log } := by
  obtain ⟨⟨passed, fresh, haccrues, hmade⟩, hcontains⟩ := h
  exact ⟨⟨passed, fresh, haccrues.log log, hmade⟩, hcontains⟩

theorem contains_mono (h : s.KeepsFor source made s') {path : Path}
    (hpath : s.cache.contains path = true) : s'.cache.contains path = true := by
  obtain ⟨⟨_, _, haccrues, _⟩, -⟩ := h
  by_contra habsent
  rw [Cache.contains, Bool.not_eq_true, Option.isSome_eq_false_iff, Option.isNone_iff_eq_none]
    at habsent
  rw [Cache.contains, haccrues.get?_eq_none habsent] at hpath
  cases hpath

theorem trans (h : s.KeepsFor source made s') (h' : s'.KeepsFor source more s'') :
    s.KeepsFor source (made ++ more) s'' := by
  obtain ⟨passed, fresh, haccrues, hmade⟩ := h.accrues
  obtain ⟨later, new, haccrues', hmore⟩ := h'.accrues
  refine ⟨⟨_, _, haccrues.trans haccrues', List.forall_mem_append.mpr ⟨?_, ?_⟩⟩,
    List.forall_mem_append.mpr ⟨?_, h'.contains⟩⟩
  · intro entry hentry
    obtain ⟨registered, hregistered, hpath⟩ := hmade entry hentry
    exact ⟨registered, List.mem_append_left more hregistered, hpath⟩
  · intro entry hentry
    obtain ⟨registered, hregistered, hpath⟩ := hmore entry hentry
    exact ⟨registered, List.mem_append_right made hregistered, hpath⟩
  · intro registered hregistered
    exact h'.contains_mono (h.contains registered hregistered)

theorem cache_eq (h : s.KeepsFor source [] s') : s'.cache = s.cache := by
  obtain ⟨passed, fresh, haccrues, hmade⟩ := h.accrues
  have hnone : fresh = [] := by
    rw [List.eq_nil_iff_forall_not_mem]
    intro entry hentry
    obtain ⟨_, hnot, -⟩ := hmade entry hentry
    cases hnot
  subst hnone
  have hentries := haccrues.entries_eq
  have hbuilds := haccrues.builds_eq
  rw [List.append_nil] at hentries
  rw [List.length_nil, Nat.add_zero] at hbuilds
  rcases hcache : s'.cache with ⟨entries, builds⟩
  rw [hcache] at hentries hbuilds
  subst hentries hbuilds
  rfl

theorem of_buildIndex_error {c : Context σ} {path : Path} {e : Error}
    (h : c.buildIndex path s = (.error e, s')) : s.KeepsFor c.scope.source [] s' := by
  obtain ⟨passed, fresh, haccrues, -, hnone⟩ := c.buildIndex_accrues h
  rw [hnone e rfl] at haccrues
  exact ⟨⟨passed, [], haccrues, by simp⟩, by simp⟩

theorem of_buildIndex {c : Context σ} {path : Path} {index : Index Value Row}
    (h : c.buildIndex path s = (.ok index, s')) {registered : Expr × Registration}
    (hpath : registered.2.path = path) : s.KeepsFor c.scope.source [registered] s' := by
  obtain ⟨passed, fresh, haccrues, honly, -⟩ := c.buildIndex_accrues h
  refine ⟨⟨passed, fresh, haccrues, fun entry hentry => ?_⟩, ?_⟩
  · exact ⟨registered, .head [], hpath.trans (honly entry hentry).symm⟩
  · rw [List.forall_mem_singleton, hpath, Cache.contains, Context.get?_of_buildIndex h]
    rfl

end Session.KeepsFor

namespace Extension

variable {c : Context σ} {s : Session σ} {target key : Expr}

theorem pin_of_failure {path : Path} {evaluator : Evaluator} {s' : Session σ} {e : Error}
    (h : c.assess target key = .eligible path evaluator)
    (hbuild : c.buildIndex path s = (.error e, s')) (he : ∀ text cause, e ≠ .indexKey text cause) :
    pin target key (c, s) = (.error e, c, s') := by
  unfold pin
  rw [bind_context, h]
  have hwithin : within (Run.orKeyError (c.buildIndex path)) (c, s) = (.error e, c, s') := by
    rw [within_apply, Run.orKeyError_of_error hbuild]
    cases e with
    | indexKey text cause => exact absurd rfl (he text cause)
    | _ => rfl
  exact bind_of_error hwithin

/-- The outcomes of a candidate, with the context and the session afterwards. -/
inductive Pins (c : Context σ) (s : Session σ) (target key : Expr) :
    Except Error Bool × Context σ × Session σ → Prop where
  | unsuitable (assessed : c.assess target key = .unsuitable) : Pins c s target key (.ok false, c, s)
  | rejected {reason : Event} (assessed : c.assess target key = .rejected reason) :
      Pins c s target key (.ok false, c, { s with log := reason :: s.log })
  | unindexable {path : Path} {evaluator : Evaluator} {text : String} {cause : Error}
      {s' : Session σ} (assessed : c.assess target key = .eligible path evaluator)
      (built : c.buildIndex path s = (.error (.indexKey text cause), s')) :
      Pins c s target key
        (.ok false, c, { s' with log := .notIndexable path (.indexKey text cause) :: s'.log })
  | failed {path : Path} {evaluator : Evaluator} {e : Error} {s' : Session σ}
      (assessed : c.assess target key = .eligible path evaluator)
      (built : c.buildIndex path s = (.error e, s'))
      (other : ∀ text cause, e ≠ .indexKey text cause) : Pins c s target key (.error e, c, s')
  | pinned {path : Path} {evaluator : Evaluator} {index : Index Value Row} {s' : Session σ}
      (assessed : c.assess target key = .eligible path evaluator)
      (built : c.buildIndex path s = (.ok index, s')) :
      Pins c s target key (.ok true, c.adding [(.path path.toRoot, ⟨path, evaluator⟩)],
        { s' with log := .answeredBy (.path path.toRoot) path :: s'.log })

theorem pins (target key : Expr) (c : Context σ) (s : Session σ) :
    Pins c s target key (pin target key (c, s)) := by
  rcases hassess : c.assess target key with _ | reason | ⟨path, evaluator⟩
  · rw [pin_of_unsuitable hassess]
    exact .unsuitable hassess
  · rw [pin_of_rejected hassess]
    exact .rejected hassess
  · rcases hbuild : c.buildIndex path s with ⟨e | index, s'⟩
    · by_cases he : ∀ text cause, e ≠ .indexKey text cause
      · rw [pin_of_failure hassess hbuild he]
        exact .failed hassess hbuild he
      · simp only [ne_eq, not_forall, not_not] at he
        obtain ⟨text, cause, rfl⟩ := he
        rw [pin_of_key_error hassess hbuild]
        exact .unindexable hassess hbuild
    · obtain ⟨source, name, k, slot, -, rfl, -, hnew, -, -⟩ :=
        Context.assess_eq_eligible hassess
      rw [pin_of_built hassess hbuild, Path.toRoot, Path.rootName, register_of_new _ hnew]
      exact .pinned hassess hbuild

/-- A candidate adds a registration exactly if it says so, and the index for it is kept then. -/
theorem pin_gains {x : Except Error Bool} {c' : Context σ} {s' : Session σ}
    (h : pin target key (c, s) = (x, c', s')) :
    (x = .ok true ∧ ∃ entry, c.Gains [entry] c' ∧ s.KeepsFor c.scope.source [entry] s') ∨
      (x ≠ .ok true ∧ c' = c ∧ s.KeepsFor c.scope.source [] s') := by
  have hpins := pins target key c s
  rw [h] at hpins
  cases hpins with
  | unsuitable _ => exact .inr ⟨by simp, rfl, .nothing _ s⟩
  | rejected _ => exact .inr ⟨by simp, rfl, (Session.KeepsFor.nothing _ s).log _⟩
  | unindexable _ built =>
      exact .inr ⟨by simp, rfl, (Session.KeepsFor.of_buildIndex_error built).log _⟩
  | failed _ built _ => exact .inr ⟨by simp, rfl, .of_buildIndex_error built⟩
  | @pinned path evaluator _ _ assessed built =>
      obtain ⟨source, name, k, slot, -, rfl, -, hnew, -, -⟩ := Context.assess_eq_eligible assessed
      exact .inl ⟨rfl, _, .single hnew _, (Session.KeepsFor.of_buildIndex built rfl).log _⟩

theorem register_gains (queried : Expr) (r : Registration) (c : Context σ) (s : Session σ) :
    ∃ added, c.Gains added (register queried r (c, s)).2.1 := by
  rcases hnew : c.isIndexed queried with _ | _
  · rw [register_of_new r hnew]
    exact ⟨[(queried, r)], .single hnew r⟩
  · rw [register_of_registered r hnew]
    exact ⟨[], .nothing c⟩

end Extension

end IndexedQuery
