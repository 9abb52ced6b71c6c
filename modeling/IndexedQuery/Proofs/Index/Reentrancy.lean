import IndexedQuery.Proofs.Index.Keeping
import IndexedQuery.Proofs.Session.Run

/-!
Builds that ask the cache for indexes themselves, their own included. A run is watched for this: it
is the same run, in which every call of the cache is noted when it returns, together with what
became of the build that was to be run for it.
-/

namespace IndexedQuery

variable {ε π κ α β γ : Type}

/-- A call of the cache, as it looks from outside. -/
structure Call (ε π κ α : Type) where
  path : π
  before : Cache π κ α
  /-- How the build ended and which cache it left, if it was run. -/
  built? : Option (Except ε (Index κ α) × Cache π κ α)
  answer : Except ε (Index κ α)
  after : Cache π κ α

structure Notes (ε π κ α : Type) where
  /-- The calls that have returned, the last one first. -/
  calls : List (Call ε π κ α)
  /-- How the build that was run last has ended, and which cache it left. A call clears this when it
  begins. -/
  ended? : Option (Except ε (Index κ α) × Cache π κ α)

def Notes.blank : Notes ε π κ α :=
  ⟨[], none⟩

abbrev Watch (ε π κ α β : Type) :=
  ExceptT ε (StateT (Notes ε π κ α) (StateM (Cache π κ α))) β

structure Call.Regular [BEq π] (call : Call ε π κ α) : Prop where
  ran_iff : call.built?.isSome = true ↔ call.before.get? call.path = none
  reused : ∀ index, call.before.get? call.path = some index →
    call.answer = .ok index ∧ call.after = call.before
  held : ∀ index, call.answer = .ok index → call.after.get? call.path = some index
  /-- Of a build and another one nested in it, the one that was kept first counts. -/
  lost : ∀ built left kept, call.built? = some (.ok built, left) →
    left.get? call.path = some kept → call.answer = .ok kept ∧ call.after = left
  added : ∀ built left, call.built? = some (.ok built, left) → left.get? call.path = none →
    call.answer = .ok built ∧ call.after.entries = left.entries ++ [(call.path, built)]
  failed : ∀ e, call.answer = .error e → call.built? = some (.error e, call.after)
  counted : call.before.Counted ∧ call.after.Counted
  grown : call.before.Within call.after
  /-- What nested calls have kept is neither replaced nor removed. -/
  grown_left : ∀ result left, call.built? = some (result, left) →
    left.Counted ∧ call.before.Within left ∧ left.Within call.after

namespace Watch

section Binding

variable {f : β → Watch ε π κ α γ} {act : Watch ε π κ α β} {notes notes' : Notes ε π κ α}
  {cache cache' : Cache π κ α}

theorem bind_of_ok {b : β} (h : act notes cache = ((.ok b, notes'), cache')) :
    (act >>= f) notes cache = f b notes' cache' := by
  change (match act notes cache with
    | ((b, notes'), cache') =>
        ExceptT.bindCont (m := StateT (Notes ε π κ α) (StateM (Cache π κ α))) f b notes' cache') = _
  rw [h]
  rfl

theorem bind_of_error {e : ε} (h : act notes cache = ((.error e, notes'), cache')) :
    (act >>= f) notes cache = ((.error e, notes'), cache') := by
  change (match act notes cache with
    | ((b, notes'), cache') =>
        ExceptT.bindCont (m := StateT (Notes ε π κ α) (StateM (Cache π κ α))) f b notes' cache') = _
  rw [h]
  rfl

theorem bind_cache (f : Cache π κ α → Watch ε π κ α β) (notes : Notes ε π κ α)
    (cache : Cache π κ α) : (getThe (Cache π κ α) >>= f) notes cache = f cache notes cache :=
  rfl

end Binding

def noted (build : Watch ε π κ α (Index κ α)) : Watch ε π κ α (Index κ α) := fun notes cache =>
  let ((result, notes), left) := build notes cache
  ((result, { notes with ended? := some (result, left) }), left)

variable [BEq π]

def call (path : π) (build : Watch ε π κ α (Index κ α)) :
    Watch ε π κ α (Except ε (Index κ α)) := fun notes cache =>
  let ((answer, notes), after) :=
    Cache.getOrBuild path build.noted { notes with ended? := none } cache
  ((.ok answer, { notes with calls := ⟨path, cache, notes.ended?, answer, after⟩ :: notes.calls }),
    after)

def run : Build ε π κ α → Watch ε π κ α (Index κ α)
  | .done result => liftExcept result
  | .ask path build next => do
      let answer ← call path (run build)
      run (next answer)

section Call

variable {path : π} {build : Watch ε π κ α (Index κ α)} {notes notes' : Notes ε π κ α}
  {cache left : Cache π κ α} {index built : Index κ α} {e : ε}

theorem call_of_kept (h : cache.get? path = some index) :
    call path build notes cache =
      ((.ok (.ok index), ⟨⟨path, cache, none, .ok index, cache⟩ :: notes.calls, none⟩), cache) := by
  unfold call Cache.getOrBuild
  rw [bind_cache, h]
  rfl

theorem getOrBuild_of_absent (h : cache.get? path = none) :
    Cache.getOrBuild path build notes cache =
      (build >>= fun index => modifyGetThe (Cache π κ α) (·.keep path index)) notes cache := by
  unfold Cache.getOrBuild
  rw [bind_cache, h]

theorem call_of_built (h : cache.get? path = none)
    (hbuild : build { notes with ended? := none } cache = ((.ok built, notes'), left)) :
    call path build notes cache =
      ((.ok (.ok (left.keep path built).1),
        ⟨⟨path, cache, some (.ok built, left), .ok (left.keep path built).1,
          (left.keep path built).2⟩ :: notes'.calls, some (.ok built, left)⟩),
        (left.keep path built).2) := by
  have hnoted : build.noted { notes with ended? := none } cache =
      ((.ok built, { notes' with ended? := some (.ok built, left) }), left) := by
    rw [noted, hbuild]
  rw [call, getOrBuild_of_absent h, bind_of_ok hnoted]
  rfl

theorem call_of_failed (h : cache.get? path = none)
    (hbuild : build { notes with ended? := none } cache = ((.error e, notes'), left)) :
    call path build notes cache =
      ((.ok (.error e), ⟨⟨path, cache, some (.error e, left), .error e, left⟩ :: notes'.calls,
        some (.error e, left)⟩), left) := by
  have hnoted : build.noted { notes with ended? := none } cache =
      ((.error e, { notes' with ended? := some (.error e, left) }), left) := by
    rw [noted, hbuild]
  rw [call, getOrBuild_of_absent h, bind_of_error hnoted]

end Call

section Plain

variable {plain : ExceptT ε (StateM (Cache π κ α)) (Index κ α)} {path : π} {cache : Cache π κ α}

omit [BEq π] in
theorem plain_bind_cache (f : Cache π κ α → ExceptT ε (StateM (Cache π κ α)) β)
    (cache : Cache π κ α) : (getThe (Cache π κ α) >>= f) cache = f cache cache :=
  rfl

theorem plain_of_kept {index : Index κ α} (h : cache.get? path = some index) :
    Cache.getOrBuild path plain cache = (.ok index, cache) := by
  unfold Cache.getOrBuild
  rw [plain_bind_cache, h]
  rfl

theorem plain_of_absent (h : cache.get? path = none) :
    Cache.getOrBuild path plain cache =
      (plain >>= fun index => modifyGetThe (Cache π κ α) (·.keep path index)) cache := by
  unfold Cache.getOrBuild
  rw [plain_bind_cache, h]

end Plain

/-- Up to the notes, the watched computation does what the plain one does. -/
def Mirrors (act : Watch ε π κ α β) (plain : ExceptT ε (StateM (Cache π κ α)) β) : Prop :=
  ∀ notes cache, plain cache = ((act notes cache).1.1, (act notes cache).2)

theorem Mirrors.call {build : Watch ε π κ α (Index κ α)}
    {plain : ExceptT ε (StateM (Cache π κ α)) (Index κ α)} (h : Mirrors build plain) (path : π)
    (notes : Notes ε π κ α) (cache : Cache π κ α) :
    (call path build notes cache).1.1 = .ok (Cache.getOrBuild path plain cache).1 ∧
      (call path build notes cache).2 = (Cache.getOrBuild path plain cache).2 := by
  rcases hget : cache.get? path with _ | index
  · have hplain := h { notes with ended? := none } cache
    rcases hbuild : build { notes with ended? := none } cache with ⟨⟨e | built, notes'⟩, left⟩
    · rw [hbuild] at hplain
      rw [call_of_failed hget hbuild, plain_of_absent hget, IndexedQuery.bind_of_error hplain]
      exact ⟨rfl, rfl⟩
    · rw [hbuild] at hplain
      rw [call_of_built hget hbuild, plain_of_absent hget, IndexedQuery.bind_of_ok hplain]
      exact ⟨rfl, rfl⟩
  · rw [call_of_kept hget, plain_of_kept hget]
    exact ⟨rfl, rfl⟩

theorem run_mirrors (b : Build ε π κ α) : Mirrors (run b) b.run := by
  induction b with
  | done result => exact fun notes cache => by cases result <;> rfl
  | ask path build next ihBuild ihNext =>
      intro notes cache
      obtain ⟨hanswer, hafter⟩ := ihBuild.call path notes cache
      rcases hcall : call path (run build) notes cache with ⟨⟨x, notes'⟩, cache'⟩
      rw [hcall] at hanswer hafter
      dsimp only at hanswer hafter
      subst hanswer hafter
      rw [run, bind_of_ok hcall]
      exact ihNext _ _ _

end Watch

/-! ## What the notes say -/

section Rules

variable [BEq π] {path : π} {cache left : Cache π κ α} {index : Index κ α} {e : ε}

theorem Call.regular_of_kept (h : cache.get? path = some index) (hcache : cache.Counted) :
    Call.Regular (ε := ε) ⟨path, cache, none, .ok index, cache⟩ where
  ran_iff := by simp [h]
  reused _ hget := by
    cases h.symm.trans hget
    exact ⟨rfl, rfl⟩
  held _ hanswer := by
    cases hanswer
    exact h
  lost _ _ _ hran := by cases hran
  added _ _ hran := by cases hran
  failed _ hanswer := by cases hanswer
  counted := ⟨hcache, hcache⟩
  grown := .refl cache
  grown_left _ _ hran := by cases hran

theorem Call.regular_of_failed (h : cache.get? path = none) (hcache : cache.Counted)
    (hleft : left.Counted) (hgrown : cache.Within left) :
    Call.Regular ⟨path, cache, some (.error e, left), .error e, left⟩ where
  ran_iff := by simp [h]
  reused _ hget := by cases h.symm.trans hget
  held _ hanswer := by cases hanswer
  lost _ _ _ hran := by cases hran
  added _ _ hran := by cases hran
  failed _ hanswer := by
    cases hanswer
    rfl
  counted := ⟨hcache, hleft⟩
  grown := hgrown
  grown_left _ _ hran := by
    cases hran
    exact ⟨hleft, hgrown, .refl left⟩

theorem Call.regular_of_built [ReflBEq π] (built : Index κ α) (h : cache.get? path = none)
    (hcache : cache.Counted) (hleft : left.Counted) (hgrown : cache.Within left) :
    Call.Regular (ε := ε) ⟨path, cache, some (.ok built, left), .ok (left.keep path built).1,
      (left.keep path built).2⟩ where
  ran_iff := by simp [h]
  reused _ hget := by cases h.symm.trans hget
  held _ hanswer := by
    cases hanswer
    exact Cache.get?_keep_self left path built
  lost _ _ kept hran hget := by
    cases hran
    rw [Cache.keep_of_kept hget]
    exact ⟨rfl, rfl⟩
  added _ _ hran hget := by
    cases hran
    rw [Cache.keep_of_absent hget]
    exact ⟨rfl, rfl⟩
  failed _ hanswer := by cases hanswer
  counted := ⟨hcache, hleft.keep path built⟩
  grown := hgrown.trans (.keep left path built)
  grown_left _ _ hran := by
    cases hran
    exact ⟨hleft, hgrown, .keep left path built⟩

/-- The calls that are noted followed the rules, and the cache has only grown from one to the next
and since. -/
structure Notes.Sound (notes : Notes ε π κ α) (cache : Cache π κ α) : Prop where
  regular : ∀ call ∈ notes.calls, call.Regular
  chain : notes.calls.Pairwise fun newer older => older.after.Within newer.after
  past : ∀ call ∈ notes.calls, call.after.Within cache
  counted : cache.Counted

theorem Notes.sound_blank : (blank : Notes ε π κ α).Sound .empty :=
  ⟨by simp [blank], .nil, by simp [blank], Cache.counted_empty⟩

theorem Notes.Sound.cons {notes : Notes ε π κ α} (h : notes.Sound left) {call : Call ε π κ α}
    (hcall : call.Regular) (hgrown : left.Within call.after)
    (ended? : Option (Except ε (Index κ α) × Cache π κ α)) :
    Sound ⟨call :: notes.calls, ended?⟩ call.after where
  regular := List.forall_mem_cons.mpr ⟨hcall, h.regular⟩
  chain := List.pairwise_cons.mpr ⟨fun older holder => (h.past older holder).trans hgrown, h.chain⟩
  past := List.forall_mem_cons.mpr
    ⟨.refl call.after, fun older holder => (h.past older holder).trans hgrown⟩
  counted := hcall.counted.2

namespace Watch

/-- Whatever the computation comes to, the notes stay sound and the cache has at most grown. -/
def Advances (act : Watch ε π κ α β) : Prop :=
  ∀ notes cache, notes.Sound cache →
    (act notes cache).1.2.Sound (act notes cache).2 ∧ cache.Within (act notes cache).2

variable [ReflBEq π]

theorem Advances.call {build : Watch ε π κ α (Index κ α)} (h : Advances build) (path : π) :
    Advances (call path build) := by
  intro notes cache hnotes
  rcases hget : cache.get? path with _ | index
  · have hcleared : Notes.Sound { notes with ended? := none } cache :=
      ⟨hnotes.regular, hnotes.chain, hnotes.past, hnotes.counted⟩
    have hbuild := h { notes with ended? := none } cache hcleared
    rcases hrun : build { notes with ended? := none } cache with ⟨⟨e | built, notes'⟩, left⟩
    · rw [hrun] at hbuild
      obtain ⟨hsound, hgrown⟩ := hbuild
      rw [call_of_failed hget hrun]
      have hcall := Call.regular_of_failed (e := e) hget hnotes.counted hsound.counted hgrown
      exact ⟨hsound.cons hcall (.refl left) _, hgrown⟩
    · rw [hrun] at hbuild
      obtain ⟨hsound, hgrown⟩ := hbuild
      rw [call_of_built hget hrun]
      have hcall := Call.regular_of_built (ε := ε) built hget hnotes.counted hsound.counted hgrown
      exact ⟨hsound.cons hcall (.keep left path built) _, hcall.grown⟩
  · rw [call_of_kept hget]
    have hcall := Call.regular_of_kept (ε := ε) hget hnotes.counted
    exact ⟨hnotes.cons hcall (.refl cache) _, .refl cache⟩

omit [ReflBEq π] in
theorem Advances.bind {act : Watch ε π κ α β} (h : Advances act) {f : β → Watch ε π κ α γ}
    (hf : ∀ b, Advances (f b)) : Advances (act >>= f) := by
  intro notes cache hnotes
  have hact := h notes cache hnotes
  rcases hrun : act notes cache with ⟨⟨e | b, notes'⟩, cache'⟩
  · rw [hrun] at hact
    rw [bind_of_error hrun]
    exact hact
  · rw [hrun] at hact
    rw [bind_of_ok hrun]
    obtain ⟨hsound, hgrown⟩ := hf b notes' cache' hact.1
    exact ⟨hsound, hact.2.trans hgrown⟩

theorem run_advances (b : Build ε π κ α) : Advances (run b) := by
  induction b with
  | done result =>
      intro notes cache hnotes
      cases result <;> exact ⟨hnotes, .refl cache⟩
  | ask path build next ihBuild ihNext => exact (ihBuild.call path).bind ihNext

end Watch

end Rules

namespace Watch

variable [BEq π]

/-- One more call after those that led to the notes and the cache. -/
def next (state : Notes ε π κ α × Cache π κ α) (entry : π × Build ε π κ α) :
    Notes ε π κ α × Cache π κ α :=
  let ((_, notes), cache) := call entry.1 (run entry.2) state.1 state.2
  (notes, cache)

/-- The notes and the cache after some calls, the first one on an empty cache. -/
def after (calls : List (π × Build ε π κ α)) : Notes ε π κ α × Cache π κ α :=
  calls.foldl next (.blank, .empty)

/-- The cache after the same calls without anyone watching. -/
def plainAfter (calls : List (π × Build ε π κ α)) : Cache π κ α :=
  calls.foldl (fun cache (path, build) => (Cache.getOrBuild path build.run cache).2) .empty

theorem after_eq_plainAfter (calls : List (π × Build ε π κ α)) :
    (after calls).2 = plainAfter calls := by
  have hnext : ∀ (state : Notes ε π κ α × Cache π κ α) (entry : π × Build ε π κ α),
      (Cache.getOrBuild entry.1 entry.2.run state.2).2 = (next state entry).2 :=
    fun state entry => ((run_mirrors entry.2).call entry.1 state.1 state.2).2.symm
  exact (List.foldl_hom Prod.snd hnext).symm

variable [ReflBEq π]

theorem sound_foldl_next (calls : List (π × Build ε π κ α)) (state : Notes ε π κ α × Cache π κ α)
    (h : state.1.Sound state.2) :
    (calls.foldl next state).1.Sound (calls.foldl next state).2 ∧
      state.2.Within (calls.foldl next state).2 := by
  induction calls generalizing state with
  | nil => exact ⟨h, .refl state.2⟩
  | cons entry calls ih =>
      have hcall := (run_advances entry.2).call entry.1 state.1 state.2 h
      obtain ⟨hsound, hgrown⟩ := ih (next state entry) hcall.1
      exact ⟨hsound, hcall.2.trans hgrown⟩

/-- In whatever way builds are nested, calls follow the rules, and the cache keeps what it has. The
notes are about the calls as they are made when nobody watches. -/
theorem computes_once (calls later : List (π × Build ε π κ α)) :
    let notes := (after calls).1
    let cache := (after calls).2
    cache = plainAfter calls ∧
    (∀ path build, (call path (run build) notes cache).1.1 =
      .ok (Cache.getOrBuild path build.run cache).1) ∧
    (∀ call ∈ notes.calls, call.Regular) ∧
    notes.calls.Pairwise (fun newer older => older.after.Within newer.after) ∧
    cache.Counted ∧ cache.Within (after (calls ++ later)).2 := by
  intro notes cache
  obtain ⟨hsound, -⟩ := sound_foldl_next calls (.blank, .empty) Notes.sound_blank
  refine ⟨after_eq_plainAfter calls, ?_, hsound.regular, hsound.chain, hsound.counted, ?_⟩
  · intro path build
    exact ((run_mirrors build).call path notes cache).1
  · rw [after, List.foldl_append]
    exact (sound_foldl_next later _ hsound).2

def ones : Index Nat Nat :=
  ⟨[(1, [10])]⟩

def twos : Index Nat Nat :=
  ⟨[(2, [20])]⟩

/-- The build for `"a"` asks for `"a"` itself, and the one for `"b"` keeps an index for `"c"` and
fails. -/
def nestedCalls : List (String × Build String String Nat Nat) :=
  [("a", .ask "a" (.done (.ok ones)) fun _ => .done (.ok twos)),
    ("b", .ask "a" (.done (.error "unread")) fun _ =>
      .ask "c" (.done (.ok twos)) fun _ => .done (.error "unreadable"))]

theorem computes_once_nestedCalls :
    let notes := (after nestedCalls).1
    let cache := (after nestedCalls).2
    cache.entries = [("a", ones), ("c", twos)] ∧ cache.builds = 2 ∧
      notes.calls.map (fun call => (call.path, call.built?.isSome, call.answer)) =
        [("b", true, .error "unreadable"), ("c", true, .ok twos), ("a", false, .ok ones),
          ("a", true, .ok ones), ("a", true, .ok ones)] ∧
      ∀ call ∈ notes.calls, call.Regular := by
  refine ⟨rfl, rfl, rfl, ?_⟩
  exact (computes_once nestedCalls []).2.2.1

end Watch

end IndexedQuery
