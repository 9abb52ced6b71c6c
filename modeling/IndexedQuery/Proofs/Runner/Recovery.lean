import IndexedQuery.Proofs.Runner.Reachable
import IndexedQuery.Proofs.Runner.Transparency
import IndexedQuery.Proofs.Session.Recovery

/-!
A session does not remember what it has been through. Once the source gives its collections
completely, queries are answered as if nothing had been asked before, whatever was asked and however
often the source failed meanwhile.
-/

namespace IndexedQuery

variable {σ : Type} {collections : String → Except Error (List Row)}

namespace Runner

open ContextTree

variable {r : Runner σ} {P : Session σ → Prop}

theorem after_keeps (hP : Session.Persistent r.context.scope.source P)
    (history : List (Query × List Value)) {s : Session σ} (hs : P s) : P (r.after history s) := by
  induction history generalizing s with
  | nil => exact hs
  | cons call history ih =>
      apply ih
      exact keeps_iff_lockstep.mpr (r.ask_lockstep hP.bisimulation call.2 call.1) s hs

theorem after_append (history further : List (Query × List Value)) (s : Session σ) :
    r.after (history ++ further) s = r.after further (r.after history s) :=
  List.foldl_append

/-- Neither the answers of a runner nor the contexts specialized in its tree depend on what went
before the source recovered. -/
theorem answerAfter_eq_fresh (r : Runner σ) {start fresh : σ}
    (discloses : r.context.scope.source.Discloses collections start)
    (serves : r.context.scope.source.Serves collections fresh) :
    (∀ history further args q,
      r.context.scope.source.Serves collections (r.after history (.start start)).source →
        r.answerAfter start (history ++ further) args q = r.answerAfter fresh [] args q) ∧
    (∀ actions (h : ((ContextTree.ofScope r.context.scope start).afterAll actions).Handle)
        condition,
      let t := (ContextTree.ofScope r.context.scope start).afterAll actions
      r.context.scope.source.Serves collections t.session.source →
        (t.contexts[h].specialize (some condition) t.session).1 =
          ((Context.ofScope r.context.scope).specialize (some condition) (.start fresh)).1) := by
  have hR := Session.recovered_bisimulation r.context.scope.source collections
  have hcurrent := Session.current_persistent r.context.scope.source collections
  have hstart := Session.current_start discloses
  have hfresh : (Session.start fresh).Recovered r.context.scope.source collections :=
    ⟨serves, (Session.current_start serves.discloses).cache⟩
  constructor
  · intro history further args q hserves
    -- What is kept was current all along, so for recovery it is enough that the source serves again.
    have hwarm := after_keeps (Session.recovered_persistent _ _) further
      ⟨hserves, (after_keeps hcurrent history hstart).cache⟩
    rw [answerAfter, after_append]
    exact (r.ask_lockstep hR args q _ _ ⟨hwarm, hfresh⟩).1
  · intro actions h condition t hserves
    have ht := (ContextTree.Upholds.ofScope hstart).afterAll hcurrent actions
    have hscope : t.contexts[h].scope = r.context.scope := ht.scope_handle h
    rw [Context.specialize_congr hscope]
    exact (Context.specialize_lockstep hR (some condition) t.session (.start fresh)
      ⟨⟨hserves, ht.session.cache⟩, hfresh⟩).1

theorem answer_catsWithKey :
    let r := Runner.new cats.faultySource [.root "cat"] ["x"] .standard .standard
    r.answerAfter [unreadableCat] [] [.int64 1] catsWithKey =
        .error (.source "cat" "unreadable") ∧
      r.answerAfter [unreadableCat] [(catsWithKey, [.int64 1])] [.int64 1]
        catsWithKey = r.answerAfter [] [] [.int64 1] catsWithKey ∧
      r.answerAfter [] [] [.int64 1] catsWithKey = .ok (.number 2) := by
  intro r
  have discloses := cats.faultySource_discloses [unreadableCat]
  have serves : cats.faultySource.Serves cats.rows [] :=
    cats.faultySource_serves (by simp)
  have recovered : cats.faultySource.Serves cats.rows
      [{ unreadableCat with uses? := some 0 }] :=
    cats.faultySource_serves (by simp)
  exact ⟨rfl, (answerAfter_eq_fresh r discloses serves).1 [(catsWithKey, [.int64 1])] []
    [.int64 1] catsWithKey recovered, rfl⟩

end Runner

end IndexedQuery
