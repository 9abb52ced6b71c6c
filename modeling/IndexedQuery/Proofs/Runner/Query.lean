import IndexedQuery.Proofs.Runner.Gathering
import IndexedQuery.Proofs.Runner.Tuples
import Mathlib.Data.List.ReduceOption

namespace IndexedQuery

variable {α : Type}

inductive Query where
  | list (plan : Plan)
  | count (plan : Plan)
  | elements (condition? : Option Expr)

inductive Answer where
  | tuples (found : List (List Value))
  | number (n : Nat)
  | rows (found : List Row)
deriving BEq

/-- What the given tuples contribute to a query, after the checks that come before the loops. -/
def collect (sources : List Expr) (params : Nat) (condition? : Option Expr) (args : List Value)
    (emit : List Binding → Except Error α) (found : List (List Row)) :
    Except Error (List α) := do
  if args.length ≠ params then
    throw (.invalidQuery s!"expected {params} parameter(s), got {args.length}")
  else
    let compiled? ← compile? sources condition?
    gather (fun tuple => contribution compiled? emit (bindingsOf tuple args)) found

namespace Query

def condition? : Query → Option Expr
  | .list plan | .count plan => plan.condition?
  | .elements condition? => condition?

/-- The answer to a query whose loops go through the given tuples. -/
def answerOver (sources : List Expr) (roots params : Nat) (args : List Value)
    (found : List (List Row)) : Query → Except Error Answer
  | .list plan => do
      let projection ← compileAll sources plan.projection
      .tuples <$> collect sources params plan.condition? args (project projection) found
  | .count plan =>
      (fun marks => .number marks.length) <$>
        collect sources params plan.condition? args (fun _ => .ok ()) found
  | .elements condition? =>
      if roots ≠ 1 then
        .error (.invalidQuery s!"elements needs exactly one root, runner has {roots}")
      else
        (fun heads => .rows heads.reduceOption) <$>
          collect sources params condition? args
            (fun bindings => .ok (bindings.head?.bind (·.row?))) found

/-- What the condition of a query says of a tuple. -/
def verdict (sources : List Expr) (args : List Value) (q : Query) (tuple : List Row) :
    Except Error Bool := do
  satisfies (← compile? sources q.condition?) (bindingsOf tuple args)

end Query

section Collect

variable {sources : List Expr} {params : Nat} {condition? : Option Expr} {args : List Value}
  {emit : List Binding → Except Error α} {found : List (List Row)}

theorem collect_of_mismatch (h : args.length ≠ params) :
    collect sources params condition? args emit found =
      .error (.invalidQuery s!"expected {params} parameter(s), got {args.length}") := by
  rw [collect, if_pos h]
  rfl

theorem collect_of_uncompiled {e : Error} (h : args.length = params)
    (hcompile : compile? sources condition? = .error e) :
    collect sources params condition? args emit found = .error e := by
  rw [collect, if_neg (not_not_intro h), hcompile]
  rfl

theorem collect_of_compiled {compiled? : Option Evaluator} (h : args.length = params)
    (hcompile : compile? sources condition? = .ok compiled?) :
    collect sources params condition? args emit found =
      gather (fun tuple => contribution compiled? emit (bindingsOf tuple args)) found := by
  rw [collect, if_neg (not_not_intro h), hcompile]
  rfl

theorem collect_cases (sources : List Expr) (params : Nat) (condition? : Option Expr)
    (args : List Value) (emit : List Binding → Except Error α) :
    (∃ e, ∀ found, collect sources params condition? args emit found = .error e) ∨
      ∃ compiled?, compile? sources condition? = .ok compiled? ∧
        ∀ found, collect sources params condition? args emit found =
          gather (fun tuple => contribution compiled? emit (bindingsOf tuple args)) found := by
  rcases Decidable.em (args.length = params) with hargs | hargs
  · rcases hcompile : compile? sources condition? with e | compiled?
    · exact .inl ⟨e, fun _ => collect_of_uncompiled hargs hcompile⟩
    · exact .inr ⟨compiled?, rfl, fun _ => collect_of_compiled hargs hcompile⟩
  · exact .inl ⟨_, fun _ => collect_of_mismatch hargs⟩

end Collect

section Contribution

variable {compiled? : Option Evaluator} {emit : List Binding → Except Error α}
  {bindings : List Binding}

theorem satisfies_eq_error_iff {condition : Evaluator} {e : Error} :
    satisfies (some condition) bindings = .error e ↔
      condition.evaluate bindings = .error e ∨
        ∃ v, condition.evaluate bindings = .ok v ∧ v.truth = .error e := by
  rw [satisfies]
  rcases condition.evaluate bindings with e' | v
  · simp [bind, Except.bind]
  · simp [bind, Except.bind]

theorem contribution_of_true (h : satisfies compiled? bindings = .ok true) :
    contribution compiled? emit bindings = ([·]) <$> emit bindings := by
  rw [contribution, h]
  rcases emit bindings with e | a <;> rfl

theorem contribution_of_false (h : satisfies compiled? bindings = .ok false) :
    contribution compiled? emit bindings = .ok [] := by
  rw [contribution, h]
  rfl

theorem contribution_of_error {e : Error} (h : satisfies compiled? bindings = .error e) :
    contribution compiled? emit bindings = .error e := by
  rw [contribution, h]
  rfl

theorem contribution_eq_ok_iff {part : List α} :
    contribution compiled? emit bindings = .ok part ↔
      (satisfies compiled? bindings = .ok false ∧ part = []) ∨
        ∃ a, satisfies compiled? bindings = .ok true ∧ emit bindings = .ok a ∧ part = [a] := by
  rcases hsat : satisfies compiled? bindings with e | _ | _
  · simp [contribution_of_error hsat]
  · simp [contribution_of_false hsat, eq_comm]
  · rw [contribution_of_true hsat]
    rcases hemit : emit bindings with e | a <;> simp [eq_comm]

theorem contribution_eq_error_iff {e : Error} :
    contribution compiled? emit bindings = .error e ↔
      satisfies compiled? bindings = .error e ∨
        (satisfies compiled? bindings = .ok true ∧ emit bindings = .error e) := by
  rcases hsat : satisfies compiled? bindings with e' | _ | _
  · simp [contribution_of_error hsat]
  · simp [contribution_of_false hsat]
  · rw [contribution_of_true hsat]
    rcases hemit : emit bindings with e' | a <;> simp

end Contribution

namespace Query

/-- A query gathers `leaf` and reads its answer off by `finish`. A tuple contributes something only
if it satisfies the condition, and of tuples with a row for each root, less found is another
answer. -/
structure Gathers (sources : List Expr) (roots : Nat) (args : List Value) (q : Query)
    (leaf : List Row → Except Error (List α)) (finish : List α → Answer) : Prop where
  compiles : ∃ compiled?, compile? sources q.condition? = .ok compiled?
  of_error : ∀ tuple e, q.verdict sources args tuple = .error e → leaf tuple = .error e
  of_false : ∀ tuple, q.verdict sources args tuple = .ok false → leaf tuple = .ok []
  of_true : ∀ tuple, q.verdict sources args tuple = .ok true → leaf tuple ≠ .ok []
  reads : ∀ found, (∀ tuple ∈ found, tuple.length = roots) → ∀ all part : List α,
    gather leaf found = .ok all → part.Sublist all → finish part = finish all → part = all

variable {sources : List Expr} {args : List Value} {q : Query}

theorem verdict_of_compiled {compiled? : Option Evaluator}
    (h : compile? sources q.condition? = .ok compiled?) (tuple : List Row) :
    q.verdict sources args tuple = satisfies compiled? (bindingsOf tuple args) := by
  rw [verdict, h]
  rfl

namespace Gathers

variable {roots : Nat} {leaf : List Row → Except Error (List α)} {finish : List α → Answer}
  {tuple : List Row}

theorem of_contribution {compiled? : Option Evaluator}
    (emit : List Binding → Except Error α)
    (hcompile : compile? sources q.condition? = .ok compiled?)
    (reads : ∀ found, (∀ tuple ∈ found, tuple.length = roots) → ∀ all part : List α,
      gather (fun tuple => contribution compiled? emit (bindingsOf tuple args)) found = .ok all →
        part.Sublist all → finish part = finish all → part = all) :
    q.Gathers sources roots args
      (fun tuple => contribution compiled? emit (bindingsOf tuple args)) finish := by
  refine ⟨⟨compiled?, hcompile⟩, ?_, ?_, ?_, reads⟩
  · intro tuple e h
    rw [verdict_of_compiled hcompile] at h
    exact contribution_of_error h
  · intro tuple h
    rw [verdict_of_compiled hcompile] at h
    exact contribution_of_false h
  · intro tuple h hnone
    rcases contribution_eq_ok_iff.mp hnone with ⟨hfalse, -⟩ | ⟨a, -, -, hpart⟩
    · rw [verdict_of_compiled hcompile, hfalse] at h
      cases h
    · cases hpart

theorem exists_verdict (hq : q.Gathers sources roots args leaf finish) {part : List α}
    (h : leaf tuple = .ok part) : ∃ b, q.verdict sources args tuple = .ok b := by
  rcases hverdict : q.verdict sources args tuple with e | b
  · rw [hq.of_error tuple e hverdict] at h
    cases h
  · exact ⟨b, rfl⟩

theorem eq_nil_iff (hq : q.Gathers sources roots args leaf finish) {part : List α}
    (h : leaf tuple = .ok part) :
    leaf tuple = .ok [] ↔ q.verdict sources args tuple ≠ .ok true := by
  constructor
  · intro hnone htrue
    exact hq.of_true tuple htrue hnone
  · intro hfalse
    obtain ⟨_ | _, hverdict⟩ := hq.exists_verdict h
    · exact hq.of_false tuple hverdict
    · exact absurd hverdict hfalse

theorem verdict_of_leaf_error (hq : q.Gathers sources roots args leaf finish) {e : Error}
    (h : leaf tuple = .error e) :
    q.verdict sources args tuple = .error e ∨ q.verdict sources args tuple = .ok true := by
  rcases hverdict : q.verdict sources args tuple with e' | _ | _
  · rw [hq.of_error tuple e' hverdict] at h
    rw [Except.error.inj h]
    exact .inl rfl
  · rw [hq.of_false tuple hverdict] at h
    cases h
  · exact .inr rfl

end Gathers

/-- Whatever the rows are, the query fails before its loops or gathers its answer. -/
def FailsOrGathers (sources : List Expr) (roots params : Nat) (args : List Value)
    (q : Query) : Prop :=
  (∃ e, ∀ found, q.answerOver sources roots params args found = .error e) ∨
    ∃ (α : Type) (leaf : List Row → Except Error (List α)) (finish : List α → Answer),
      q.Gathers sources roots args leaf finish ∧
      ∀ found, q.answerOver sources roots params args found = finish <$> gather leaf found

theorem failsOrGathers_of_collect {roots params : Nat} {emit : List Binding → Except Error α}
    (finish : List α → Answer)
    (hover : ∀ found, q.answerOver sources roots params args found =
      finish <$> collect sources params q.condition? args emit found)
    (reads : ∀ compiled? found, (∀ tuple ∈ found, tuple.length = roots) → ∀ all part : List α,
      gather (fun tuple => contribution compiled? emit (bindingsOf tuple args)) found = .ok all →
        part.Sublist all → finish part = finish all → part = all) :
    q.FailsOrGathers sources roots params args := by
  rcases collect_cases sources params q.condition? args emit with
    ⟨e, hfail⟩ | ⟨compiled?, hcompile, hgather⟩
  · refine .inl ⟨e, fun found => ?_⟩
    rw [hover, hfail]
    rfl
  · refine .inr ⟨α, _, finish, .of_contribution emit hcompile (reads compiled?), fun found => ?_⟩
    rw [hover, hgather]

theorem isSome_of_gather_heads {compiled? : Option Evaluator} {found : List (List Row)}
    {heads : List (Option Row)} (hlength : ∀ tuple ∈ found, tuple.length = 1)
    (hgather : gather (fun tuple => contribution compiled?
      (fun bindings => .ok (bindings.head?.bind (·.row?))) (bindingsOf tuple args)) found =
        .ok heads) :
    ∀ head ∈ heads, head.isSome = true := by
  intro head hhead
  obtain ⟨tuple, htuple, given, hgiven, hin⟩ := exists_of_mem_gather hgather hhead
  obtain ⟨row, rfl⟩ := List.length_eq_one_iff.mp (hlength tuple htuple)
  rcases contribution_eq_ok_iff.mp hgiven with ⟨-, rfl⟩ | ⟨a, -, ha, rfl⟩
  · cases hin
  · cases ha
    rw [List.mem_singleton.mp hin]
    rfl

theorem failsOrGathers (sources : List Expr) (roots params : Nat) (args : List Value)
    (q : Query) : q.FailsOrGathers sources roots params args := by
  cases q with
  | list plan =>
      rcases hprojection : compileAll sources plan.projection with e | projection
      · refine .inl ⟨e, fun found => ?_⟩
        rw [answerOver, hprojection]
        rfl
      · apply failsOrGathers_of_collect .tuples
        · intro found
          rw [answerOver, hprojection]
          rfl
        · rintro _ found - all part - - heq
          exact Answer.tuples.inj heq
  | count plan =>
      apply failsOrGathers_of_collect fun marks => .number marks.length
      · intro found
        rfl
      · rintro _ found - all part - hsub heq
        exact hsub.eq_of_length (Answer.number.inj heq)
  | elements condition? =>
      by_cases hone : roots = 1
      · apply failsOrGathers_of_collect fun heads => .rows heads.reduceOption
        · intro found
          exact if_neg (not_not_intro hone)
        · rintro _ found hlength all part hall hsub heq
          -- Every tuple has a first row, so nothing is lost by dropping the missing ones.
          have hsome := isSome_of_gather_heads (by simpa [hone] using hlength) hall
          have hall' := List.reduceOption_length_eq_iff.mpr hsome
          have hpart := List.reduceOption_length_eq_iff.mpr fun head hhead =>
            hsome head (hsub.subset hhead)
          apply hsub.eq_of_length
          rw [← hpart, ← hall', Answer.rows.inj heq]
      · exact .inl ⟨_, fun found => if_pos hone⟩

end Query

end IndexedQuery
