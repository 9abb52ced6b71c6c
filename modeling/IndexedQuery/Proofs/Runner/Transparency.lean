import IndexedQuery.Proofs.Runner.Answer

/-!
What difference it makes whether indexes are used. The runners with and without them gather from
the same product, the one with indexes only from the tuples that its lookups keep.
-/

namespace IndexedQuery.Runner

variable {σ : Type} {rows : String → List Row} {roots : List Path} {params : List String}

/-- The answer of a runner that was asked other questions before. -/
def answerAfter (r : Runner σ) (start : σ) (history : List (Query × List Value))
    (args : List Value) (q : Query) : Except Error Answer :=
  (r.ask args q (r.after history (.start start))).1

namespace MadeFor

variable {r : Runner σ} {start : σ}

theorem answerAfter_eq (hr : r.MadeFor roots params)
    (yields : r.context.scope.source.Yields rows (roots.map Path.rootName) start)
    (history : List (Query × List Value)) (args : List Value) (q : Query) :
    r.answerAfter start history args q =
      q.answerOver (sourcesOf roots params) roots.length params.length args
        (r.kept rows roots q.condition? args) := by
  have hs := hr.after_settled (Session.settled_start yields) history
  obtain ⟨s', hask, -⟩ := hr.ask_settled args q _ hs
  rw [answerAfter, hask]

theorem kept_of_disabled (hr : r.MadeFor roots params)
    (h : r.context.scope.config.enabled = false) (condition? : Option Expr) (args : List Value) :
    r.kept rows roots condition? args = product rows roots := by
  apply Context.kept_of_unregistered
  cases condition? with
  | none => exact hr.unregistered
  | some condition =>
      rw [queryContext, Context.specialized, h]
      rfl

theorem keeps_of_verdict (hr : r.MadeFor roots params)
    (exact : r.context.scope.registry.Exact) (distinct : (roots.map Path.rootName).Nodup)
    {q : Query} {args : List Value} {tuple : List Row}
    (h : q.verdict (sourcesOf roots params) args tuple = .ok true) :
    (r.queryContext rows q.condition?).keeps roots args tuple = true := by
  have hsources := hr.sources_queryContext rows q.condition?
  apply (hr.allPinned rows q.condition?).keeps_of_equalUnder hsources distinct
  rw [hsources]
  unfold Query.verdict at h
  rcases hcondition : q.condition? with _ | condition
  · simp [Context.pinning]
  · rw [hcondition] at h
    rcases hcompile : compile (sourcesOf roots params) condition with e | evaluator
    · rw [compile?, hcompile] at h
      cases h
    · rw [compile?, hcompile] at h
      exact equalUnder_of_compiled exact hcompile h

end MadeFor

section Over

variable {r : Runner σ} {q : Query} {args : List Value}

/-- An answer stays what it is exactly if no tuple that satisfies the condition is left out. -/
theorem answerOver_kept_eq_iff {answer : Answer}
    (h : q.answerOver (sourcesOf roots params) roots.length params.length args
      (product rows roots) = .ok answer) :
    q.answerOver (sourcesOf roots params) roots.length params.length args
        (r.kept rows roots q.condition? args) = .ok answer ↔
      ∀ tuple ∈ product rows roots, q.verdict (sourcesOf roots params) args tuple = .ok true →
        (r.queryContext rows q.condition?).keeps roots args tuple = true := by
  rcases q.failsOrGathers (sourcesOf roots params) roots.length params.length args with
    ⟨e, hfail⟩ | ⟨α, leaf, finish, hgathers, hover⟩
  · rw [hfail] at h
    cases h
  · rw [hover] at h ⊢
    rcases hall : gather leaf (product rows roots) with e | all
    · rw [hall] at h
      cases h
    · rw [hall] at h
      cases h
      obtain ⟨part, hpart, hsub⟩ := gather_filter_of_ok
        (p := (r.queryContext rows q.condition?).keeps roots args) hall
      have hread : finish <$> gather leaf (r.kept rows roots q.condition? args) =
            .ok (finish all) ↔
          gather leaf (r.kept rows roots q.condition? args) = .ok all := by
        rw [kept, Context.kept, hpart]
        constructor
        · intro heq
          rw [hgathers.reads _ (fun _ => length_of_mem_product) all part hall hsub
            (Except.ok.inj heq)]
        · intro heq
          cases heq
          rfl
      rw [hread, kept, Context.kept, gather_filter_eq_iff hall]
      apply forall₂_congr
      intro tuple htuple
      obtain ⟨given, hgiven, -⟩ := exists_ok_of_gather hall htuple
      rw [hgathers.eq_nil_iff hgiven, ← Bool.not_eq_true, not_imp_not]

theorem answerOver_kept_of_error {e : Error}
    (h : q.answerOver (sourcesOf roots params) roots.length params.length args
      (product rows roots) = .error e)
    (hkept : ∀ tuple, q.verdict (sourcesOf roots params) args tuple = .ok true →
      (r.queryContext rows q.condition?).keeps roots args tuple = true) :
    q.answerOver (sourcesOf roots params) roots.length params.length args
        (r.kept rows roots q.condition? args) = .error e ∨
      ∃ compiled? before tuple after sofar,
        compile? (sourcesOf roots params) q.condition? = .ok compiled? ∧
        product rows roots = before ++ tuple :: after ∧
        q.answerOver (sourcesOf roots params) roots.length params.length args before =
          .ok sofar ∧
        (∀ earlier ∈ before, ∃ b, satisfies compiled? (bindingsOf earlier args) = .ok b) ∧
        satisfies compiled? (bindingsOf tuple args) = .error e ∧
        (r.queryContext rows q.condition?).keeps roots args tuple = false := by
  rcases q.failsOrGathers (sourcesOf roots params) roots.length params.length args with
    ⟨e', hfail⟩ | ⟨α, leaf, finish, hgathers, hover⟩
  · left
    rw [hfail] at h ⊢
    exact h
  · rw [hover] at h
    rcases hall : gather leaf (product rows roots) with e' | all
    · rw [hall] at h
      cases h
      obtain ⟨before, tuple, after, found, hproduct, hbefore, htuple⟩ :=
        gather_eq_error_iff.mp hall
      -- If the tuple that fails is kept, so it does with fewer tuples before it.
      rcases hkeeps : (r.queryContext rows q.condition?).keeps roots args tuple with _ | _
      · right
        obtain ⟨compiled?, hcompile⟩ := hgathers.compiles
        refine ⟨compiled?, before, tuple, after, finish found, hcompile, hproduct, ?_, ?_, ?_,
          hkeeps⟩
        · rw [hover, hbefore]
          rfl
        · intro earlier hearlier
          obtain ⟨given, hgiven, -⟩ := exists_ok_of_gather hbefore hearlier
          rw [← Query.verdict_of_compiled hcompile]
          exact hgathers.exists_verdict hgiven
        · rw [← Query.verdict_of_compiled hcompile]
          rcases hgathers.verdict_of_leaf_error htuple with herror | htrue
          · exact herror
          · rw [hkept tuple htrue] at hkeeps
            cases hkeeps
      · left
        rw [hover, kept, Context.kept, hproduct, gather_filter_of_error hbefore htuple hkeeps]
        rfl
    · rw [hall] at h
      cases h

end Over

section Comparison

variable {source : Source σ} {registry : Registry} {start : σ}

/-- Indexing changes no answer, whatever was asked before with it or without it. -/
theorem answer_indexed_of_scanned (distinct : (roots.map Path.rootName).Nodup)
    (exact : registry.Exact) (yields : source.Yields rows (roots.map Path.rootName) start)
    (capacity capacity' : Nat) (history history' : List (Query × List Value))
    (args : List Value) (q : Query) {answer : Answer}
    (scanned : (Runner.new source roots params registry ⟨false, capacity⟩).answerAfter start history
      args q = .ok answer) :
    (Runner.new source roots params registry ⟨true, capacity'⟩).answerAfter start history'
      args q = .ok answer := by
  have hoff := new_madeFor source roots params registry ⟨false, capacity⟩
  have hon := new_madeFor source roots params registry ⟨true, capacity'⟩
  rw [hoff.answerAfter_eq yields, hoff.kept_of_disabled rfl] at scanned
  rw [hon.answerAfter_eq yields, answerOver_kept_eq_iff scanned]
  intro tuple _ hverdict
  exact hon.keeps_of_verdict exact distinct hverdict

def petShop : Collections :=
  .ofList
    [("owner", [⟨1, [.int64 1]⟩, ⟨2, [.int64 2]⟩]),
      ("pet", [⟨10, [.int64 2]⟩, ⟨11, [.int64 1]⟩, ⟨12, [.int64 2]⟩])]

/-- The pets of the owners from a number on. -/
def petsOfOwners : Query :=
  .list
    { condition? := some (.operation .and
        [.operation (.comparison .eq)
            [.path (.field "pet" "owner" 0), .path (.field "owner" "id" 0)],
          .operation (.comparison .ge) [.path (.field "owner" "id" 0), .param "low"]])
      projection := [.path (.field "owner" "id" 0), .path (.field "pet" "owner" 0)] }

theorem answer_petsOfOwners :
    (Runner.new petShop.source [.root "owner", .root "pet"] ["low"] .standard
        ⟨true, 16⟩).answerAfter () [(petsOfOwners, [.int64 7])] [.int64 2] petsOfOwners =
      .ok (.tuples [[.int64 2, .int64 2], [.int64 2, .int64 2]]) :=
  answer_indexed_of_scanned (by decide) Registry.standard_exact
    (petShop.source_yields (by decide)) 16 16 [] [(petsOfOwners, [.int64 7])] [.int64 2]
    petsOfOwners rfl

/-- Where roots may share their names, an answer without indexes is the answer with them exactly if
no tuple that satisfies the condition is left out. -/
theorem answer_indexed_eq_iff (yields : source.Yields rows (roots.map Path.rootName) start)
    (capacity capacity' : Nat) (history history' : List (Query × List Value))
    (args : List Value) (q : Query) {answer : Answer}
    (scanned : (Runner.new source roots params registry ⟨false, capacity⟩).answerAfter start history
      args q = .ok answer) :
    (Runner.new source roots params registry ⟨true, capacity'⟩).answerAfter start history'
        args q = .ok answer ↔
      ∀ tuple ∈ product rows roots, q.verdict (sourcesOf roots params) args tuple = .ok true →
        ¬ ((Runner.new source roots params registry ⟨true, capacity'⟩).queryContext rows
          q.condition?).LeavesOut roots args tuple := by
  have hoff := new_madeFor source roots params registry ⟨false, capacity⟩
  have hon := new_madeFor source roots params registry ⟨true, capacity'⟩
  rw [hoff.answerAfter_eq yields, hoff.kept_of_disabled rfl] at scanned
  rw [hon.answerAfter_eq yields, answerOver_kept_eq_iff scanned]
  simp only [(hon.allPinned rows q.condition?).keeps_iff_not_leavesOut]

def twins : Collections :=
  .ofList [("t", [⟨1, [.int64 1]⟩, ⟨2, [.int64 2]⟩])]

def firstIsOne : Query :=
  .count ⟨some (.operation (.comparison .eq)
    [.path (.field "t" "a" 0), .constant (.int64 1)]), []⟩

/-- Both positions of a product of a collection with itself are narrowed by what the condition says
of the first one. -/
theorem answer_firstIsOne :
    (Runner.new twins.source [.root "t", .root "t"] [] .standard ⟨false, 16⟩).answerAfter () [] []
        firstIsOne = .ok (.number 2) ∧
      (Runner.new twins.source [.root "t", .root "t"] [] .standard ⟨true, 16⟩).answerAfter () [] []
        firstIsOne = .ok (.number 1) :=
  ⟨rfl, rfl⟩

theorem leavesOut_firstIsOne :
    ¬ ∀ tuple ∈ product twins.rowsOf [.root "t", .root "t"],
      firstIsOne.verdict (sourcesOf [.root "t", .root "t"] []) [] tuple = .ok true →
        ¬ ((Runner.new twins.source [.root "t", .root "t"] [] .standard ⟨true, 16⟩).queryContext
          twins.rowsOf firstIsOne.condition?).LeavesOut [.root "t", .root "t"] [] tuple := by
  intro hnone
  have hscanned : (Runner.new twins.source [.root "t", .root "t"] [] .standard
      ⟨false, 16⟩).answerAfter () [] [] firstIsOne = .ok (.number 2) := rfl
  have hyields : twins.source.Yields twins.rowsOf ["t", "t"] () :=
    twins.source_yields (by decide)
  have hsame := (answer_indexed_eq_iff hyields 16 16 [] [] [] firstIsOne hscanned).mpr hnone
  cases hsame

/-- With indexes a query fails as it does without them, unless it has come to a tuple that is left
out and it is the condition that fails there. Its answer is always that of the tuples not left
out. -/
theorem answer_indexed_of_failure (distinct : (roots.map Path.rootName).Nodup)
    (exact : registry.Exact) (yields : source.Yields rows (roots.map Path.rootName) start)
    (capacity capacity' : Nat) (history history' : List (Query × List Value))
    (args : List Value) (q : Query) {e : Error}
    (scanned : (Runner.new source roots params registry ⟨false, capacity⟩).answerAfter start history
      args q = .error e) :
    let indexed := Runner.new source roots params registry ⟨true, capacity'⟩
    let answer := indexed.answerAfter start history' args q
    let context := indexed.queryContext rows q.condition?
    answer = q.answerOver (sourcesOf roots params) roots.length params.length args
        (context.kept rows roots args) ∧
      (answer = .error e ∨
        ∃ compiled? before tuple after sofar,
          compile? (sourcesOf roots params) q.condition? = .ok compiled? ∧
          product rows roots = before ++ tuple :: after ∧
          q.answerOver (sourcesOf roots params) roots.length params.length args before =
            .ok sofar ∧
          (∀ earlier ∈ before, ∃ b, satisfies compiled? (bindingsOf earlier args) = .ok b) ∧
          satisfies compiled? (bindingsOf tuple args) = .error e ∧
          context.LeavesOut roots args tuple) := by
  intro indexed answer context
  have hoff := new_madeFor source roots params registry ⟨false, capacity⟩
  have hon : indexed.MadeFor roots params := new_madeFor source roots params registry _
  have hanswer : answer = q.answerOver (sourcesOf roots params) roots.length params.length args
      (context.kept rows roots args) := hon.answerAfter_eq yields history' args q
  rw [hoff.answerAfter_eq yields, hoff.kept_of_disabled rfl] at scanned
  refine ⟨hanswer, ?_⟩
  rw [hanswer]
  rcases answerOver_kept_of_error (r := indexed) scanned
    fun tuple => hon.keeps_of_verdict exact distinct with
    hsame | ⟨compiled?, before, tuple, after, sofar, hcompile, hproduct, hsofar, hbefore, hfails,
      hkeeps⟩
  · exact .inl hsame
  · refine .inr ⟨compiled?, before, tuple, after, sofar, hcompile, hproduct, hsofar, hbefore,
      hfails, ?_⟩
    by_contra hout
    rw [(hon.allPinned rows q.condition?).keeps_iff_not_leavesOut.mpr hout] at hkeeps
    cases hkeeps

def oneRow : Collections :=
  .ofList [("t", [⟨1, [.int64 0, .int64 2]⟩])]

def dividesOne : Query :=
  .count ⟨some (.operation .and
    [.operation (.comparison .eq)
        [.operation (.arithmetic .div) [.constant (.int64 1), .path (.field "t" "a" 0)],
          .constant (.int64 1)],
      .operation (.comparison .eq) [.path (.field "t" "b" 1), .constant (.int64 1)]]), []⟩

/-- The index on `b` leaves out the row on which the division fails. -/
theorem answer_dividesOne :
    (Runner.new oneRow.source [.root "t"] [] .standard ⟨false, 16⟩).answerAfter () [] []
        dividesOne = .error .divisionByZero ∧
      (Runner.new oneRow.source [.root "t"] [] .standard ⟨true, 16⟩).answerAfter () [] []
        dividesOne = .ok (.number 0) :=
  ⟨rfl, rfl⟩

theorem leavesOut_dividesOne :
    ∃ compiled? before tuple after sofar,
      compile? (sourcesOf [.root "t"] []) dividesOne.condition? = .ok compiled? ∧
      product oneRow.rowsOf [.root "t"] = before ++ tuple :: after ∧
      dividesOne.answerOver (sourcesOf [.root "t"] []) 1 0 [] before = .ok sofar ∧
      (∀ earlier ∈ before, ∃ b, satisfies compiled? (bindingsOf earlier []) = .ok b) ∧
      satisfies compiled? (bindingsOf tuple []) = .error .divisionByZero ∧
      ((Runner.new oneRow.source [.root "t"] [] .standard ⟨true, 16⟩).queryContext oneRow.rowsOf
        dividesOne.condition?).LeavesOut [.root "t"] [] tuple := by
  have hscanned : (Runner.new oneRow.source [.root "t"] [] .standard ⟨false, 16⟩).answerAfter ()
      [] [] dividesOne = .error .divisionByZero := rfl
  have hyields : oneRow.source.Yields oneRow.rowsOf ["t"] () := oneRow.source_yields (by decide)
  have hdistinct : ([Path.root "t"].map Path.rootName).Nodup := by decide
  have hfailure := answer_indexed_of_failure hdistinct Registry.standard_exact hyields 16 16 [] []
    [] dividesOne hscanned
  rcases hfailure.2 with hsame | hout
  · cases hsame
  · exact hout

end Comparison

end IndexedQuery.Runner
