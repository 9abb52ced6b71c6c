import IndexedQuery.Proofs.Evaluator.Acceptance
import IndexedQuery.Proofs.Evaluator.Meaning
import IndexedQuery.Proofs.Value.Equality

/-!
Rewriting of logical conditions. Conjunction, disjunction and membership all make one test after the
other until one decides, and differ in what they test and in the outcome that decides. A condition
may be replaced by any other that makes the same tests.
-/

namespace IndexedQuery

/-- The answer of tests that are made one after the other until one comes out as `deciding` or
fails, which is the answer then whatever stands behind it. If none decides, the answer is the other
one. -/
inductive Decides (deciding : Bool) : List (Except Error Bool) → Except Error Bool → Prop where
  | here {test : Except Error Bool} {rest : List (Except Error Bool)}
      (decided : test ≠ .ok (!deciding)) : Decides deciding (test :: rest) test
  | later {rest : List (Except Error Bool)} {answer : Except Error Bool}
      (h : Decides deciding rest answer) : Decides deciding (.ok (!deciding) :: rest) answer
  | never : Decides deciding [] (.ok (!deciding))

namespace Decides

variable {deciding : Bool} {pre tests rest : List (Except Error Bool)}
  {answer answer' inner : Except Error Bool}

theorem unique (h : Decides deciding tests answer) (h' : Decides deciding tests answer') :
    answer = answer' := by
  induction h with
  | here decided =>
      cases h' with
      | here _ => rfl
      | later _ => exact absurd rfl decided
  | later _ ih =>
      cases h' with
      | here decided => exact absurd rfl decided
      | later h' => exact ih h'
  | never =>
      cases h'
      rfl

theorem negated (h : Decides deciding tests answer) :
    Decides (!deciding) (tests.map ((!·) <$> ·)) ((!·) <$> answer) := by
  induction h with
  | @here test rest decided =>
      refine .here fun hnot => decided ?_
      rcases test with e | b
      · cases hnot
      · exact congrArg Except.ok (Bool.not_inj (Except.ok.inj hnot))
  | later _ ih => exact .later ih
  | never => exact .never

theorem of_ok (h : Decides deciding tests (.ok (!deciding)))
    (hrest : Decides deciding rest answer) :
    Decides deciding (tests ++ rest) answer := by
  generalize hinner : (Except.ok (!deciding) : Except Error Bool) = inner at h
  induction h with
  | here decided => exact absurd hinner.symm decided
  | later _ ih => exact .later (ih hinner)
  | never => exact hrest

theorem append (h : Decides deciding tests answer) (decided : answer ≠ .ok (!deciding)) :
    Decides deciding (tests ++ rest) answer := by
  induction h with
  | here decided => exact .here decided
  | later _ ih => exact .later (ih decided)
  | never => exact absurd rfl decided

theorem flatten (hinner : Decides deciding tests inner)
    (h : Decides deciding (pre ++ inner :: rest) answer) :
    Decides deciding (pre ++ tests ++ rest) answer := by
  induction pre with
  | nil =>
      cases h with
      | here decided => exact hinner.append decided
      | later h => exact hinner.of_ok h
  | cons test pre ih =>
      cases h with
      | here decided => exact .here decided
      | later h => exact .later (ih h)

theorem single (test : Except Error Bool) : Decides deciding [test] test := by
  by_cases h : test = .ok (!deciding)
  · subst h
    exact .later .never
  · exact .here h

theorem step {next : Bool → Except Error Bool} (test : Except Error Bool)
    (hdecided : next deciding = .ok deciding) (hrest : Decides deciding rest (next !deciding)) :
    Decides deciding (test :: rest) (test >>= next) := by
  rcases test with e | b
  · exact .here (by simp)
  · change Decides deciding (.ok b :: rest) (next b)
    by_cases h : b = deciding
    · rw [h, hdecided]
      exact .here (by simp)
    · rw [Bool.eq_not_of_ne h]
      exact .later hrest

end Decides

/-! ## Operators -/

section Outcomes

variable (os : List Outcome)

theorem decides_allTrue : Decides false (os.map (· >>= Value.truth)) (allTrue os) := by
  induction os with
  | nil => exact .never
  | cons o os ih =>
      rw [List.map_cons, allTrue, ← bind_assoc]
      exact .step _ rfl ih

theorem decides_anyTrue : Decides true (os.map (· >>= Value.truth)) (anyTrue os) := by
  induction os with
  | nil => exact .never
  | cons o os ih =>
      rw [List.map_cons, anyTrue, ← bind_assoc]
      exact .step _ rfl ih

theorem decides_anyEqual (v : Value) :
    Decides true (os.map ((· == v) <$> ·)) (anyEqual v os) := by
  induction os with
  | nil => exact .never
  | cons o os ih =>
      have hbind : anyEqual v (o :: os) =
          ((· == v) <$> o) >>= fun b => if b then return true else anyEqual v os := by
        rw [anyEqual, bind_map_left]
      rw [List.map_cons, hbind]
      exact .step _ rfl ih

end Outcomes

namespace Expr

def negation (e : Expr) : Expr :=
  .operation .not [e]

def equalTo (e e' : Expr) : Expr :=
  .operation (.comparison .eq) [e, e']

def truth (env : Environment) (e : Expr) : Except Error Bool :=
  e.meaning env >>= Value.truth

def equality (env : Environment) (e e' : Expr) : Except Error Bool := do
  return (← e.meaning env) == (← e'.meaning env)

/-- Whatever names stand for, the expression means what the tests decide. -/
def DecidedBy (e : Expr) (deciding : Bool) (tests : Environment → List (Except Error Bool)) :
    Prop :=
  ∀ env, ∃ answer, Decides deciding (tests env) answer ∧ e.meaning env = .boolean <$> answer

variable {env : Environment} {e x y : Expr} {deciding : Bool}
  {tests : Environment → List (Except Error Bool)}

theorem truth_of_meaning {answer : Except Error Bool} (h : e.meaning env = .boolean <$> answer) :
    e.truth env = answer := by
  rw [truth, h]
  rcases answer with err | b <;> rfl

theorem meaning_negation (e : Expr) (env : Environment) :
    e.negation.meaning env = .boolean <$> (!·) <$> e.truth env := by
  rw [negation, meaning, truth]
  rcases e.meaning env with err | v
  · rfl
  · rcases htruth : v.truth with err | b <;>
      simp [bind, Except.bind, pure, Except.pure, htruth]

theorem meaning_equalTo (e e' : Expr) (env : Environment) :
    (e.equalTo e').meaning env = .boolean <$> e.equality env e' := by
  rw [equalTo, meaning, equality]
  rcases e.meaning env with err | v
  · rfl
  · rcases e'.meaning env with err | w <;> rfl

theorem decidedBy_and (args : List Expr) :
    (operation .and args).DecidedBy false fun env => args.map (·.truth env) := by
  intro env
  refine ⟨_, ?_, meaning_operation env .and args⟩
  have hdecides := decides_allTrue (args.map (·.meaning env))
  rwa [List.map_map] at hdecides

theorem decidedBy_or (args : List Expr) :
    (operation .or args).DecidedBy true fun env => args.map (·.truth env) := by
  intro env
  refine ⟨_, ?_, meaning_operation env .or args⟩
  have hdecides := decides_anyTrue (args.map (·.meaning env))
  rwa [List.map_map] at hdecides

theorem decidedBy_memberOf (x : Expr) {list : List Expr} (nonempty : list ≠ []) :
    (x.memberOf list).DecidedBy true fun env => list.map (x.equality env) := by
  intro env
  rcases hx : x.meaning env with e | v
  · refine ⟨.error e, ?_, ?_⟩
    · -- The value that is sought is computed for the first comparison, of which there is one.
      obtain ⟨first, rest, rfl⟩ := List.exists_cons_of_ne_nil nonempty
      have hfirst : x.equality env first = .error e := by
        rw [equality, hx]
        rfl
      simpa only [List.map_cons, hfirst] using .here (by simp)
    · rw [memberOf, meaning, hx]
      rfl
  · refine ⟨anyEqual v (list.map (·.meaning env)), ?_, ?_⟩
    · have htests : x.equality env = fun candidate => (· == v) <$> candidate.meaning env := by
        funext candidate
        rw [equality, hx]
        rcases candidate.meaning env with e | w
        · rfl
        · exact congrArg Except.ok BEq.comm
      have hdecides := decides_anyEqual (list.map (·.meaning env)) v
      rw [List.map_map] at hdecides
      simp only [htests]
      exact hdecides
    · rw [memberOf, meaning_operation, List.map_cons, hx]
      rfl

theorem truth_negation (e : Expr) (env : Environment) :
    e.negation.truth env = (!·) <$> e.truth env :=
  truth_of_meaning (meaning_negation e env)

theorem truth_equalTo (e e' : Expr) (env : Environment) :
    (e.equalTo e').truth env = e.equality env e' :=
  truth_of_meaning (meaning_equalTo e e' env)

namespace DecidedBy

theorem negation (h : e.DecidedBy deciding tests) :
    e.negation.DecidedBy (!deciding) fun env => (tests env).map ((!·) <$> ·) := by
  intro env
  obtain ⟨answer, hdecides, hmeaning⟩ := h env
  refine ⟨(!·) <$> answer, hdecides.negated, ?_⟩
  rw [meaning_negation, truth_of_meaning hmeaning]

/-- Conditions that make the same tests mean the same. -/
theorem meaning_eq (h : x.DecidedBy deciding tests) (h' : y.DecidedBy deciding tests)
    (env : Environment) : x.meaning env = y.meaning env := by
  obtain ⟨answer, hdecides, hx⟩ := h env
  obtain ⟨answer', hdecides', hy⟩ := h' env
  rw [hx, hy, hdecides.unique hdecides']

end DecidedBy

theorem decidedBy_and_negations (xs : List Expr) :
    (operation .and (xs.map negation)).DecidedBy false fun env =>
      (xs.map (·.truth env)).map ((!·) <$> ·) := by
  intro env
  simpa only [List.map_map, Function.comp_def, truth_negation]
    using decidedBy_and (xs.map negation) env

theorem decidedBy_or_negations (xs : List Expr) :
    (operation .or (xs.map negation)).DecidedBy true fun env =>
      (xs.map (·.truth env)).map ((!·) <$> ·) := by
  intro env
  simpa only [List.map_map, Function.comp_def, truth_negation]
    using decidedBy_or (xs.map negation) env

theorem decidedBy_or_equalTo (x : Expr) (list : List Expr) :
    (operation .or (list.map x.equalTo)).DecidedBy true fun env => list.map (x.equality env) := by
  intro env
  simpa only [List.map_map, Function.comp_def, truth_equalTo]
    using decidedBy_or (list.map x.equalTo) env

theorem decidedBy_or_nested (pre ys post : List Expr) :
    (operation .or (pre ++ operation .or ys :: post)).DecidedBy true fun env =>
      (pre ++ ys ++ post).map (·.truth env) := by
  intro env
  obtain ⟨inner, hinner, hmeaning⟩ := decidedBy_or ys env
  obtain ⟨answer, hdecides, houter⟩ := decidedBy_or (pre ++ operation .or ys :: post) env
  refine ⟨answer, ?_, houter⟩
  simp only [List.map_append, List.map_cons, truth_of_meaning hmeaning] at hdecides ⊢
  exact hinner.flatten hdecides

theorem decidedBy_negation_negation (y : Expr) :
    y.negation.negation.DecidedBy false fun env => [y.truth env] := by
  intro env
  refine ⟨y.truth env, .single _, ?_⟩
  rw [meaning_negation, truth_negation]
  rcases y.truth env with err | b
  · rfl
  · exact congrArg (Except.ok ∘ Value.boolean) b.not_not

/-! ## Compiling -/

variable {sources xs : List Expr}

def Compiles (sources : List Expr) (e : Expr) : Prop :=
  ∃ evaluator, compile sources e = .ok evaluator

theorem compiles_operation_iff {op : Operator} :
    Compiles sources (operation op xs) ↔
      op.accepts xs.length = true ∧ ∀ x ∈ xs, Compiles sources x := by
  simp only [Compiles, exists_compile_iff, wellFormed_operation_iff]

theorem compiles_listing {op : Operator} (atLeast : op.minArity = 1) (atMost : op.maxArity? = none)
    (nonempty : xs ≠ []) (h : ∀ x ∈ xs, Compiles sources x) :
    Compiles sources (operation op xs) := by
  refine compiles_operation_iff.mpr ⟨?_, h⟩
  simpa [Operator.accepts, atLeast, atMost, Nat.one_le_iff_ne_zero] using nonempty

theorem compiles_negation (h : Compiles sources x) : Compiles sources x.negation :=
  compiles_operation_iff.mpr ⟨rfl, List.forall_mem_singleton.mpr h⟩

theorem compiles_equalTo (hx : Compiles sources x) (hy : Compiles sources y) :
    Compiles sources (x.equalTo y) :=
  compiles_operation_iff.mpr
    ⟨rfl, List.forall_mem_cons.mpr ⟨hx, List.forall_mem_singleton.mpr hy⟩⟩

/-- Both conditions compile, and whatever is bound, both evaluate to what the tests decide. -/
def DecideAlike (sources : List Expr) (e e' : Expr) (deciding : Bool)
    (tests : Environment → List (Except Error Bool)) : Prop :=
  ∃ evaluator evaluator', compile sources e = .ok evaluator ∧ compile sources e' = .ok evaluator' ∧
    ∀ bindings, ∃ answer, Decides deciding (tests (.ofBindings sources bindings)) answer ∧
      evaluator.evaluate bindings = .boolean <$> answer ∧
      evaluator'.evaluate bindings = .boolean <$> answer

theorem DecidedBy.alike (hx : x.DecidedBy deciding tests) (hy : y.DecidedBy deciding tests)
    (hcx : Compiles sources x) (hcy : Compiles sources y) :
    DecideAlike sources x y deciding tests := by
  obtain ⟨evaluator, hevaluator⟩ := hcx
  obtain ⟨evaluator', hevaluator'⟩ := hcy
  refine ⟨evaluator, evaluator', hevaluator, hevaluator', fun bindings => ?_⟩
  obtain ⟨answer, hdecides, hmeaning⟩ := hx (.ofBindings sources bindings)
  refine ⟨answer, hdecides, ?_, ?_⟩
  · rw [(evaluate_eq_meaning hevaluator bindings).1, hmeaning]
  · rw [(evaluate_eq_meaning hevaluator' bindings).1, hy.meaning_eq hx, hmeaning]

section Rules

variable (nonempty : xs ≠ []) (h : ∀ x ∈ xs, Compiles sources x)
include nonempty h

theorem decideAlike_negation_and :
    DecideAlike sources (operation .and xs).negation (operation .or (xs.map negation)) true
      fun env => (xs.map (·.truth env)).map ((!·) <$> ·) := by
  apply (decidedBy_and xs).negation.alike (decidedBy_or_negations xs)
  · exact compiles_negation (compiles_listing rfl rfl nonempty h)
  · refine compiles_listing rfl rfl (by simpa) (List.forall_mem_map.mpr ?_)
    exact fun x hx => compiles_negation (h x hx)

theorem decideAlike_negation_or :
    DecideAlike sources (operation .or xs).negation (operation .and (xs.map negation)) false
      fun env => (xs.map (·.truth env)).map ((!·) <$> ·) := by
  apply (decidedBy_or xs).negation.alike (decidedBy_and_negations xs)
  · exact compiles_negation (compiles_listing rfl rfl nonempty h)
  · refine compiles_listing rfl rfl (by simpa) (List.forall_mem_map.mpr ?_)
    exact fun x hx => compiles_negation (h x hx)

theorem decideAlike_memberOf (hx : Compiles sources x) :
    DecideAlike sources (x.memberOf xs) (operation .or (xs.map x.equalTo)) true
      fun env => xs.map (x.equality env) := by
  apply (decidedBy_memberOf x nonempty).alike (decidedBy_or_equalTo x xs)
  · exact compiles_listing rfl rfl (by simp) (List.forall_mem_cons.mpr ⟨hx, h⟩)
  · refine compiles_listing rfl rfl (by simpa) (List.forall_mem_map.mpr ?_)
    exact fun y hy => compiles_equalTo hx (h y hy)

end Rules

theorem decideAlike_or_nested {pre ys post : List Expr} (nonempty : ys ≠ [])
    (h : ∀ x ∈ pre ++ ys ++ post, Compiles sources x) :
    DecideAlike sources (operation .or (pre ++ operation .or ys :: post))
      (operation .or (pre ++ ys ++ post)) true
      fun env => (pre ++ ys ++ post).map (·.truth env) := by
  apply (decidedBy_or_nested pre ys post).alike (decidedBy_or _)
  · simp only [List.forall_mem_append] at h
    obtain ⟨⟨hpre, hys⟩, hpost⟩ := h
    refine compiles_listing rfl rfl (by simp) (List.forall_mem_append.mpr ⟨hpre, ?_⟩)
    exact List.forall_mem_cons.mpr ⟨compiles_listing rfl rfl nonempty hys, hpost⟩
  · exact compiles_listing rfl rfl (by simp [nonempty]) h

theorem decideAlike_negation_negation (h : Compiles sources y) :
    DecideAlike sources y.negation.negation (operation .and [y]) false
      fun env => [y.truth env] := by
  apply (decidedBy_negation_negation y).alike (decidedBy_and [y])
  · exact compiles_negation (compiles_negation h)
  · exact compiles_listing rfl rfl (by simp) (List.forall_mem_singleton.mpr h)

/-- Each rule rewrites a condition into one that makes the same tests in the same order, so that it
comes to the same boolean or fails for the same reason. -/
theorem rewriting_preserves_tests (sources : List Expr) :
    (∀ xs, xs ≠ [] → (∀ x ∈ xs, Compiles sources x) →
      DecideAlike sources (operation .and xs).negation (operation .or (xs.map negation)) true
          (fun env => (xs.map (·.truth env)).map ((!·) <$> ·)) ∧
        DecideAlike sources (operation .or xs).negation (operation .and (xs.map negation)) false
          (fun env => (xs.map (·.truth env)).map ((!·) <$> ·))) ∧
    (∀ pre ys post, ys ≠ [] → (∀ x ∈ pre ++ ys ++ post, Compiles sources x) →
      DecideAlike sources (operation .or (pre ++ operation .or ys :: post))
        (operation .or (pre ++ ys ++ post)) true
        fun env => (pre ++ ys ++ post).map (·.truth env)) ∧
    (∀ y, Compiles sources y →
      DecideAlike sources y.negation.negation (operation .and [y]) false
        fun env => [y.truth env]) ∧
    (∀ x cs, cs ≠ [] → Compiles sources x → (∀ c ∈ cs, Compiles sources c) →
      DecideAlike sources (x.memberOf cs) (operation .or (cs.map x.equalTo)) true
        fun env => cs.map (x.equality env)) := by
  refine ⟨?_, ?_, ?_, ?_⟩
  · intro xs nonempty h
    exact ⟨decideAlike_negation_and nonempty h, decideAlike_negation_or nonempty h⟩
  · intro pre ys post nonempty h
    exact decideAlike_or_nested nonempty h
  · intro y h
    exact decideAlike_negation_negation h
  · intro x cs nonempty hx h
    exact decideAlike_memberOf nonempty h hx

/-- The operands are a parameter, a number, which is no condition, and a quotient that cannot be
computed. A null parameter decides the conjunction, so that nobody meets the number. The disjunction
stops at a true parameter and is refused the number otherwise. -/
theorem rewriting_parameterBeforeFailures :
    let sources : List Expr := [.path (.root "cat"), .param "x"]
    let quotient : Expr :=
      .operation (.arithmetic .div) [.constant (.int64 1), .constant (.int64 0)]
    let xs : List Expr := [.param "x", .constant (.int64 1), quotient]
    let env (v : Value) : Environment := .ofBindings sources [.unbound, .value v]
    DecideAlike sources (operation .and xs).negation (operation .or (xs.map negation)) true
        (fun env => (xs.map (·.truth env)).map ((!·) <$> ·)) ∧
      (operation .and xs).negation.meaning (env .null) = .ok (.boolean true) ∧
      (operation .or (xs.map negation)).meaning (env (.boolean true)) =
        .error (.typeMismatch .boolean (some .int64)) ∧
    DecideAlike sources (operation .or xs).negation (operation .and (xs.map negation)) false
        (fun env => (xs.map (·.truth env)).map ((!·) <$> ·)) ∧
      (operation .or xs).negation.meaning (env (.boolean true)) = .ok (.boolean false) ∧
    DecideAlike sources (operation .or [.param "x", operation .or [quotient], .constant .null])
        (operation .or [.param "x", quotient, .constant .null]) true
        (fun env => [.param "x", quotient, .constant .null].map (·.truth env)) ∧
      (operation .or [.param "x", quotient, .constant .null]).meaning (env .null) =
        .error .divisionByZero ∧
    DecideAlike sources (param "x").negation.negation (operation .and [param "x"]) false
        (fun env => [(param "x").truth env]) ∧
      (param "x").negation.negation.meaning (env .null) = .ok (.boolean false) ∧
    DecideAlike sources ((param "x").memberOf xs.tail)
        (operation .or (xs.tail.map (param "x").equalTo)) true
        (fun env => xs.tail.map ((param "x").equality env)) ∧
      ((param "x").memberOf xs.tail).meaning (env (.int64 1)) = .ok (.boolean true) ∧
      ((param "x").memberOf xs.tail).meaning (env .null) = .error .divisionByZero := by
  intro sources quotient xs env
  have hparam : Compiles sources (.param "x") := ⟨_, rfl⟩
  have hnull : Compiles sources (.constant .null) := ⟨_, rfl⟩
  have hquotient : Compiles sources quotient := ⟨_, rfl⟩
  have htail : ∀ c ∈ xs.tail, Compiles sources c := by
    simpa [xs] using ⟨⟨_, rfl⟩, hquotient⟩
  have hxs : ∀ x ∈ xs, Compiles sources x := List.forall_mem_cons.mpr ⟨hparam, htail⟩
  obtain ⟨hmorgan, hnested, htwice, hmember⟩ := rewriting_preserves_tests sources
  obtain ⟨hand, hor⟩ := hmorgan xs (by simp [xs]) hxs
  refine ⟨hand, rfl, rfl, hor, rfl, ?_, rfl, htwice _ hparam, rfl, ?_, rfl, rfl⟩
  · refine hnested [.param "x"] [quotient] [.constant .null] (by simp) ?_
    simpa using ⟨hparam, hquotient, hnull⟩
  · exact hmember _ _ (by simp [xs]) hparam htail

end Expr

end IndexedQuery
