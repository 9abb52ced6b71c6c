import IndexedQuery.Proofs.Runner.Loop
import IndexedQuery.Proofs.Session.Outcomes

/-!
The calls that nested loops make while they run. All loops share one list of bindings, and each of
them changes it in every round, so that it has to be shown what a call finds there: in later rounds
as in the first, rows in the slots of the loops around it and nothing in those of the loops inside.
-/

namespace IndexedQuery

variable {σ α β : Type}

/-- What the loops ask for, and the bindings that they ask with. -/
inductive Loop.Call where
  | resolution (slot : Nat) (source : Expr) (bindings : List Binding)
  /-- Whether the bindings satisfy the condition, if there is one. -/
  | test (bindings : List Binding)
  | emission (bindings : List Binding)

/-- Loops in a session that comes with a record of their calls, the last one first. A failure does
not undo the record. -/
abbrev Recorded (σ α : Type) :=
  StateT (List Binding) (ExceptT Error (StateM (Session σ × List Loop.Call))) α

/-- Makes a call and records it. -/
def Recorded.ask (call : Loop.Call) (act : Run σ α) : Recorded σ α := fun bindings (s, calls) =>
  let (answer, s') := act s
  ((·, bindings) <$> answer, s', call :: calls)

def contributionRecorded (condition? : Option Evaluator) (emit : List Binding → Except Error α) :
    Recorded σ (List α) := do
  let bindings ← get
  if ← Recorded.ask (.test bindings) (liftM (satisfies condition? bindings)) then
    return [← Recorded.ask (.emission bindings) (liftM (emit bindings))]
  else
    return []

/-- The nested loops, which record their calls. -/
def iterateRecorded (resolve : Expr → List Binding → Run σ Elements)
    (condition? : Option Evaluator) (emit : List Binding → Except Error α) (slot : Nat) :
    List Expr → Recorded σ (List α)
  | [] => contributionRecorded condition? emit
  | source :: sources => do
      let bindings ← get
      let elements ← Recorded.ask (.resolution slot source bindings) (resolve source bindings)
      let found ← elements.toPass.mapM fun (item : Except Error Row) => do
        let row ← item
        modify (·.set slot (.element row))
        iterateRecorded resolve condition? emit (slot + 1) sources
      modify (·.set slot .unbound)
      return found.flatten

namespace Recorded

theorem ask_apply (call : Loop.Call) (act : Run σ α) (bindings : List Binding) (s : Session σ)
    (calls : List Loop.Call) :
    ask call act bindings (s, calls) = ((·, bindings) <$> (act s).1, (act s).2, call :: calls) :=
  rfl

/-- The record of a computation holds all its calls: a plain computation comes to the same as soon
as the recorded calls are the same to both. -/
def Determines (same : Loop.Call → Prop) (act : Recorded σ α) (plain : Loop σ α) : Prop :=
  ∀ before s calls, ∃ made,
    (act before (s, calls)).2.2 = made ++ calls ∧
      ((∀ call ∈ made, same call) →
        plain before s = ((act before (s, calls)).1, (act before (s, calls)).2.1))

namespace Determines

variable {same : Loop.Call → Prop} {act : Recorded σ α} {plain : Loop σ α}

theorem pure (a : α) : Determines same (Pure.pure a) (Pure.pure a : Loop σ α) :=
  fun _ _ _ => ⟨[], rfl, fun _ => rfl⟩

theorem lift (x : Except Error α) : Determines same (liftM x : Recorded σ α) (liftM x) := by
  intro before s calls
  refine ⟨[], ?_, fun _ => ?_⟩ <;> rcases x with e | a <;> rfl

theorem get : Determines same MonadState.get (MonadState.get : Loop σ (List Binding)) :=
  fun _ _ _ => ⟨[], rfl, fun _ => rfl⟩

theorem modify (change : List Binding → List Binding) :
    Determines same (MonadState.modifyGet fun bindings => ((), change bindings))
      (MonadState.modifyGet fun bindings => ((), change bindings) : Loop σ Unit) :=
  fun _ _ _ => ⟨[], rfl, fun _ => rfl⟩

theorem ask {call : Loop.Call} {act act' : Run σ α} (h : same call → act = act') :
    Determines same (Recorded.ask call act) (liftM act' : Loop σ α) := by
  intro before s calls
  refine ⟨[call], rfl, fun hall => ?_⟩
  rw [← h (hall call (.head [])), ask_apply]
  rcases hact : act s with ⟨e | a, s'⟩
  · exact IndexedQuery.bind_of_error hact
  · exact IndexedQuery.bind_of_ok hact

theorem ask_lift {call : Loop.Call} {x x' : Except Error α} (h : same call → x = x') :
    Determines same (Recorded.ask call (liftM x)) (liftM x' : Loop σ α) :=
  ask fun hcall => congrArg (liftM : Except Error α → Run σ α) (h hcall)

theorem bind {f : α → Recorded σ β} {g : α → Loop σ β} (hact : Determines same act plain)
    (hf : ∀ a, Determines same (f a) (g a)) : Determines same (act >>= f) (plain >>= g) := by
  intro before s calls
  obtain ⟨made, hmade, hsame⟩ := hact before s calls
  rcases h : act before (s, calls) with ⟨e | ⟨a, after⟩, s', calls'⟩
  · rw [h] at hmade hsame
    rw [Loop.bind_of_error h]
    exact ⟨made, hmade, fun hall => Loop.bind_of_error (hsame hall)⟩
  · rw [h] at hmade hsame
    rw [Loop.bind_of_ok h]
    obtain ⟨later, hlater, hsame'⟩ := hf a after s' calls'
    refine ⟨later ++ made, ?_, fun hall => ?_⟩
    · rw [hlater, show calls' = made ++ calls from hmade, List.append_assoc]
    · rw [Loop.bind_of_ok (hsame fun call hcall => hall call (List.mem_append_right later hcall))]
      exact hsame' fun call hcall => hall call (List.mem_append_left made hcall)

theorem mapM {f : β → Recorded σ α} {g : β → Loop σ α} (hf : ∀ b, Determines same (f b) (g b))
    (bs : List β) : Determines same (bs.mapM f) (bs.mapM g) := by
  induction bs with
  | nil => exact .pure []
  | cons b bs ih =>
      rw [List.mapM_cons, List.mapM_cons]
      exact (hf b).bind fun first => ih.bind fun rest => .pure (first :: rest)

theorem apply (h : Determines same act plain) {before : List Binding} {s s' : Session σ}
    {answer : Except Error (α × List Binding)} {calls : List Loop.Call}
    (hact : act before (s, []) = (answer, s', calls)) (hsame : ∀ call ∈ calls, same call) :
    plain before s = (answer, s') := by
  obtain ⟨made, hmade, hplain⟩ := h before s []
  rw [hact, List.append_nil] at hmade
  rw [hact] at hplain
  subst hmade
  exact hplain hsame

end Determines

end Recorded

section Determined

variable {resolve resolve' : Expr → List Binding → Run σ Elements}
  {condition? condition'? : Option Evaluator} {emit emit' : List Binding → Except Error α}

/-- The call comes to the same with either of two sources, conditions and ways to emit. -/
def Loop.Call.Agrees (resolve resolve' : Expr → List Binding → Run σ Elements)
    (condition? condition'? : Option Evaluator) (emit emit' : List Binding → Except Error α) :
    Loop.Call → Prop
  | .resolution _ source bindings => resolve source bindings = resolve' source bindings
  | .test bindings => satisfies condition? bindings = satisfies condition'? bindings
  | .emission bindings => emit bindings = emit' bindings

theorem Loop.Call.agrees_self (call : Loop.Call) :
    call.Agrees resolve resolve condition? condition? emit emit := by
  cases call <;> rfl

theorem lift_contribution (condition? : Option Evaluator) (emit : List Binding → Except Error α)
    (bindings : List Binding) :
    (liftM (contribution condition? emit bindings) : Loop σ (List α)) = do
      if ← (liftM (satisfies condition? bindings : Except Error Bool) : Loop σ Bool) then
        return [← (liftM (emit bindings) : Loop σ α)]
      else
        return [] := by
  unfold contribution
  rcases satisfies condition? bindings with e | b
  · rfl
  · cases b with
    | false => rfl
    | true => rcases emit bindings with e | a <;> rfl

theorem contributionRecorded_determines :
    Recorded.Determines (Loop.Call.Agrees resolve resolve' condition? condition'? emit emit')
      (contributionRecorded condition? emit : Recorded σ (List α))
      (do liftM (contribution condition'? emit' (← get))) := by
  refine Recorded.Determines.get.bind fun bindings => ?_
  rw [lift_contribution]
  refine (Recorded.Determines.ask_lift fun h => h).bind fun b => ?_
  cases b with
  | true => exact (Recorded.Determines.ask_lift fun h => h).bind fun a => .pure [a]
  | false => exact .pure []

theorem iterateRecorded_determines (slot : Nat) (sources : List Expr) :
    Recorded.Determines (Loop.Call.Agrees resolve resolve' condition? condition'? emit emit')
      (iterateRecorded resolve condition? emit slot sources)
      (iterate resolve' (contribution condition'? emit') slot sources) := by
  induction sources generalizing slot with
  | nil => exact contributionRecorded_determines
  | cons source sources ih =>
      rw [iterateRecorded, iterate]
      refine Recorded.Determines.get.bind fun bindings => ?_
      refine (Recorded.Determines.ask fun h => h).bind fun elements => ?_
      refine (Recorded.Determines.mapM (fun item => ?_) elements.toPass).bind fun found => ?_
      · refine (Recorded.Determines.lift item).bind fun row => ?_
        exact (Recorded.Determines.modify _).bind fun _ => ih (slot + 1)
      · exact (Recorded.Determines.modify _).bind fun _ => .pure found.flatten

end Determined

/-! ## What a call finds -/

def HoldsRow (bindings : List Binding) (slot : Nat) : Prop :=
  ∃ row, bindings[slot]? = some (.element row)

/-- The bindings once the loops from `depth` on have come to `level`. They do not touch the slots
before `depth`, which hold rows if they did so before. -/
structure Reached (before : List Binding) (roots depth level : Nat) (bindings : List Binding) :
    Prop where
  bound : ∀ slot < level, depth ≤ slot ∨ HoldsRow before slot → HoldsRow bindings slot
  free : ∀ slot, level ≤ slot → slot < roots → bindings[slot]? = some .unbound
  unchanged : ∀ slot, slot < depth ∨ roots ≤ slot → bindings[slot]? = before[slot]?

namespace Reached

variable {before bindings : List Binding} {roots depth level : Nat}

theorem start (hfree : ∀ slot, depth ≤ slot → slot < roots → before[slot]? = some .unbound) :
    Reached before roots depth depth before where
  bound slot hslot hholds := by
    rcases hholds with hlate | hholds
    · omega
    · exact hholds
  free := hfree
  unchanged _ _ := rfl

theorem set (h : Reached before roots depth level bindings) (hdepth : depth ≤ level)
    (hlevel : level < roots) (row : Row) :
    Reached before roots depth (level + 1) (bindings.set level (.element row)) where
  bound slot hslot hholds := by
    by_cases heq : level = slot
    · subst heq
      have hlt : level < bindings.length :=
        (List.getElem?_eq_some_iff.mp (h.free level (Nat.le_refl level) hlevel)).1
      exact ⟨row, List.getElem?_set_self hlt⟩
    · rw [HoldsRow, List.getElem?_set_ne heq]
      exact h.bound slot (by omega) hholds
  free slot hlate hslot := by
    rw [List.getElem?_set_ne (by omega)]
    exact h.free slot (by omega) hslot
  unchanged slot hslot := by
    rw [List.getElem?_set_ne (by omega)]
    exact h.unchanged slot hslot

theorem set_unbound (h : Reached before roots depth level bindings) (hlevel : level < roots) :
    bindings.set level .unbound = bindings := by
  obtain ⟨hlt, hunbound⟩ :=
    List.getElem?_eq_some_iff.mp (h.free level (Nat.le_refl level) hlevel)
  rw [← hunbound, List.set_getElem_self]

theorem full (h : Reached before roots depth level bindings) (hlevel : roots ≤ level) :
    Reached before roots depth roots bindings where
  bound slot hslot := h.bound slot (by omega)
  free slot hlate hslot := by omega
  unchanged := h.unchanged

end Reached

/-- What a call finds that the loops over the roots from `depth` on make: the resolution of a root
finds those before it bound and the others free, and at the innermost step all roots are bound. -/
def Loop.Call.Orderly (roots : List Expr) (depth : Nat) (before : List Binding) : Loop.Call → Prop
  | .resolution slot source bindings =>
      depth ≤ slot ∧ roots[slot]? = some source ∧
        Reached before roots.length depth slot bindings
  | .test bindings | .emission bindings => Reached before roots.length depth roots.length bindings

/-- All calls that have been recorded are as `p` has them. -/
def AllCalls (p : Loop.Call → Prop) (st : Session σ × List Loop.Call) : Prop :=
  ∀ call ∈ st.2, p call

namespace Recorded

section Ensures

variable {P : Session σ × List Loop.Call → Prop} {E : Error → Prop} {p : Loop.Call → Prop}
  {Q : α × List Binding → Prop} {R : β × List Binding → Prop} {f : α → Recorded σ β}
  {before : List Binding}

theorem bind_ensures {act : Recorded σ α} (hact : Ensures P E Q (act before))
    (hf : ∀ a after, Q (a, after) → Ensures P E R (f a after)) :
    Ensures P E R ((act >>= f) before) :=
  Ensures.bind hact fun answer hanswer => hf answer.1 answer.2 hanswer

theorem get_ensures {f : List Binding → Recorded σ β} (hf : Ensures P E R (f before before)) :
    Ensures P E R ((MonadState.get >>= f) before) :=
  hf

theorem modify_ensures {f : Unit → Recorded σ β} {change : List Binding → List Binding}
    (hf : Ensures P E R (f () (change before))) :
    Ensures P E R ((MonadState.modifyGet (fun bindings => ((), change bindings)) >>= f) before) :=
  hf

theorem lift_ensures {x : Except Error α} (hf : ∀ a, Ensures P (fun _ => True) R (f a before)) :
    Ensures P (fun _ => True) R ((liftM x >>= f) before) := by
  rcases x with e | a
  · exact .throw trivial
  · exact hf a

theorem ask_ensures {call : Loop.Call} {act : Run σ α} (hcall : p call)
    (hf : ∀ a, Ensures (AllCalls p) (fun _ => True) R (f a before)) :
    Ensures (AllCalls p) (fun _ => True) R ((ask call act >>= f) before) := by
  have hask : Ensures (AllCalls p) (fun _ => True) (·.2 = before) (ask call act before) := by
    rintro ⟨s, calls⟩ hcalls
    rw [ask_apply]
    refine ⟨List.forall_mem_cons.mpr ⟨hcall, hcalls⟩, ?_⟩
    rcases (act s).1 with e | a
    · trivial
    · rfl
  refine bind_ensures hask ?_
  rintro a _ rfl
  exact hf a

theorem mapM_ensures {I : List Binding → Prop} {f : β → Recorded σ α}
    (hf : ∀ b before, I before → Ensures P E (I ·.2) (f b before)) (bs : List β)
    (hbefore : I before) : Ensures P E (I ·.2) (bs.mapM f before) := by
  induction bs generalizing before with
  | nil => exact .pure hbefore
  | cons b bs ih =>
      rw [List.mapM_cons]
      refine bind_ensures (hf b before hbefore) fun first between hbetween => ?_
      exact bind_ensures (ih hbetween) fun rest after hafter => .pure hafter

end Ensures

end Recorded

section Order

variable {roots : List Expr} {depth : Nat} {before bindings : List Binding}

theorem contributionRecorded_orderly (condition? : Option Evaluator)
    (emit : List Binding → Except Error α)
    (hreached : Reached before roots.length depth roots.length bindings) :
    Ensures (AllCalls (Loop.Call.Orderly roots depth before)) (fun _ => True) (·.2 = bindings)
      ((contributionRecorded condition? emit : Recorded σ (List α)) bindings) := by
  refine Recorded.get_ensures (Recorded.ask_ensures hreached fun b => ?_)
  cases b with
  | true => exact Recorded.ask_ensures hreached fun a => .pure rfl
  | false => exact .pure rfl

/-- A round of a loop leaves no slot changed but the one of the loop itself. -/
theorem iterateRecorded_orderly (resolve : Expr → List Binding → Run σ Elements)
    (condition? : Option Evaluator) (emit : List Binding → Except Error α) {slot : Nat}
    {sources : List Expr} (hsources : roots.drop slot = sources) (hdepth : depth ≤ slot)
    (hreached : Reached before roots.length depth slot bindings) :
    Ensures (AllCalls (Loop.Call.Orderly roots depth before)) (fun _ => True) (·.2 = bindings)
      (iterateRecorded resolve condition? emit slot sources bindings) := by
  induction sources generalizing slot bindings with
  | nil =>
      apply contributionRecorded_orderly
      exact hreached.full (List.drop_eq_nil_iff.mp hsources)
  | cons source sources ih =>
      have hsource : roots[slot]? = some source := by
        rw [← List.head?_drop, hsources, List.head?_cons]
      have hslot : slot < roots.length := (List.getElem?_eq_some_iff.mp hsource).1
      have hrest : roots.drop (slot + 1) = sources := by
        rw [← List.drop_drop, hsources, List.drop_one, List.tail_cons]
      -- A round may start with the row of the round before in its slot, but it replaces that first.
      have hround : ∀ (item : Except Error Row) (start : List Binding),
          (∀ b, start.set slot b = bindings.set slot b) →
            Ensures (AllCalls (Loop.Call.Orderly roots depth before)) (fun _ => True)
              (fun answer => ∀ b, answer.2.set slot b = bindings.set slot b)
              ((do
                let row ← item
                modify (·.set slot (.element row))
                iterateRecorded resolve condition? emit (slot + 1) sources :
                  Recorded σ (List α)) start) := by
        intro item start hstart
        refine Recorded.lift_ensures fun row => Recorded.modify_ensures ?_
        rw [hstart]
        refine (ih hrest (by omega) (hreached.set hdepth hslot row)).mono ?_
        rintro ⟨found, _⟩ rfl b
        exact List.set_set ..
      refine Recorded.get_ensures (Recorded.ask_ensures ⟨hdepth, hsource, hreached⟩ ?_)
      intro elements
      refine Recorded.bind_ensures
        (Recorded.mapM_ensures hround elements.toPass fun _ => rfl) fun found after hafter => ?_
      refine Recorded.modify_ensures (.pure ?_)
      exact (hafter .unbound).trans (hreached.set_unbound hslot)

/-- Where the slots of the roots from `depth` on are free, the loops over these roots leave the
bindings as they found them if they succeed. Whether or not they do, all that they ask for is on
record, for loops that agree on the recorded calls do the same, and every call on record finds the
bindings in order. -/
theorem iterate_restores_bindings (resolve : Expr → List Binding → Run σ Elements)
    (condition? : Option Evaluator) (emit : List Binding → Except Error α) (roots : List Expr)
    (depth : Nat) (before : List Binding)
    (hfree : ∀ slot, depth ≤ slot → slot < roots.length → before[slot]? = some .unbound)
    (s : Session σ) :
    let plain := iterate resolve (contribution condition? emit) depth (roots.drop depth) before s
    (∀ found after s', plain = (.ok (found, after), s') → after = before) ∧
    ∃ calls,
      iterateRecorded resolve condition? emit depth (roots.drop depth) before (s, []) =
        (plain.1, plain.2, calls) ∧
      (∀ resolve' condition'? emit',
        (∀ call ∈ calls, call.Agrees resolve resolve' condition? condition'? emit emit') →
          iterate resolve' (contribution condition'? emit') depth (roots.drop depth) before s =
            plain) ∧
      ∀ call ∈ calls, call.Orderly roots depth before := by
  intro plain
  obtain ⟨hcalls, houtcome⟩ := iterateRecorded_orderly resolve condition? emit rfl
    (Nat.le_refl depth) (.start hfree) (s, []) (List.forall_mem_nil _)
  rcases hrecorded : iterateRecorded resolve condition? emit depth (roots.drop depth) before (s, [])
    with ⟨answer, s', calls⟩
  rw [hrecorded] at hcalls houtcome
  have hdetermined : ∀ resolve' condition'? emit',
      (∀ call ∈ calls, call.Agrees resolve resolve' condition? condition'? emit emit') →
        iterate resolve' (contribution condition'? emit') depth (roots.drop depth) before s =
          (answer, s') :=
    fun _ _ _ => (iterateRecorded_determines depth _).apply hrecorded
  -- Among the loops that agree on the calls are the recorded ones themselves.
  have hplain : plain = (answer, s') := hdetermined _ _ _ fun call _ => call.agrees_self
  rw [hplain]
  refine ⟨?_, calls, rfl, hdetermined, hcalls⟩
  rintro found after _ ⟨⟩
  exact houtcome

end Order

def litters : Collections :=
  .ofList
    [("owner", [⟨1, [.int64 1]⟩, ⟨2, [.int64 2]⟩, ⟨3, [.int64 3]⟩]),
      ("pet", [⟨10, [.int64 1]⟩, ⟨11, [.int64 3]⟩, ⟨12, [.int64 1]⟩])]

/-- The pets are looked up by the owner of the round. -/
def littersByOwner : Context Unit where
  scope :=
    { source := litters.source, registry := .standard, config := .standard
      sources := [.path (.root "owner"), .path (.root "pet"), .param "barred"] }
  registrations := [(.path (.root "pet"), ⟨.field "pet" "owner" 0, .bound (.field 0 0) [0]⟩)]

theorem iterate_littersByOwner :
    let roots : List Expr := [.path (.root "owner"), .path (.root "pet")]
    let notBarred : Evaluator :=
      .bound (.operation (.comparison .ne) [.field 1 0, .param 2]) [1, 2]
    let ids : List Binding → Except Error (List Nat) := fun bindings =>
      .ok (bindings.filterMap fun b => b.row?.map (·.id))
    let before : List Binding := [.unbound, .unbound, .value (.int64 3)]
    let plain := iterate littersByOwner.resolveUnder (contribution (some notBarred) ids) 0 roots
      before (.start ())
    let calls := (iterateRecorded littersByOwner.resolveUnder (some notBarred) ids 0 roots before
      (.start (), [])).2.2
    (∀ slot, 0 ≤ slot → slot < roots.length → before[slot]? = some .unbound) ∧
      (∃ after s', plain = (.ok ([[1, 10], [1, 12]], after), s') ∧ after = before) ∧
      calls.length = 9 ∧ ∀ call ∈ calls, call.Orderly roots 0 before := by
  intro roots notBarred ids before plain calls
  have hfree : ∀ slot, 0 ≤ slot → slot < roots.length → before[slot]? = some .unbound := by
    intro slot _ hslot
    match slot, hslot with
    | 0, _ => rfl
    | 1, _ => rfl
  obtain ⟨hrestores, recorded, hrecorded, -, horderly⟩ := iterate_restores_bindings
    littersByOwner.resolveUnder (some notBarred) ids roots 0 before hfree (.start ())
  have hplain : plain = (.ok ([[1, 10], [1, 12]], before), plain.2) := rfl
  have hcalls : calls = recorded := congrArg (·.2.2) hrecorded
  refine ⟨hfree, ⟨before, plain.2, hplain, hrestores _ _ _ hplain⟩, rfl, ?_⟩
  rw [hcalls]
  exact horderly

end IndexedQuery
