import IndexedQuery.Proofs.Context.Growth
import IndexedQuery.Proofs.Evaluator.Equalities

/-!
Discovery is a walk along the equalities that a condition reaches through conjunctions. It adds a
registration for each that it counts, and where it is aborted the registrations made by then remain.
-/

namespace IndexedQuery

variable {σ α β : Type}

/-- The second expression is the first one, or is reached from it through conjunctions only. -/
inductive Expr.Reaches (registry : Registry) : Expr → Expr → Prop where
  | here (e : Expr) : Reaches registry e e
  | through {op : Operator} {args : List Expr} {arg e : Expr}
      (conjunction : registry.isConjunction op = true) (operand : arg ∈ args)
      (reaches : Reaches registry arg e) : Reaches registry (.operation op args) e

namespace Expr

variable {registry : Registry}

theorem reaches_of_not_conjunction {op : Operator} {args : List Expr} {e : Expr}
    (h : registry.isConjunction op = false) (hreaches : Reaches registry (.operation op args) e) :
    e = .operation op args := by
  cases hreaches with
  | here => rfl
  | through hconj _ _ => rw [h] at hconj; cases hconj

/-- What discovery is after: an equality of two operands, which is no conjunction as well. -/
def IsEquality (registry : Registry) (left right e : Expr) : Prop :=
  ∃ op, registry.isEquality op = true ∧ registry.isConjunction op = false ∧
    e = .operation op [left, right]

theorem mem_sides_iff {left right : Expr} {args : List Expr} :
    (left, right) ∈ sides args ↔ args = [left, right] := by
  constructor
  · exact mem_sides
  · rintro rfl
    exact .head []

theorem sides_eq_nil {args : List Expr} (h : ∀ left right, args ≠ [left, right]) :
    sides args = [] := by
  unfold sides
  split
  · rename_i left right
    exact absurd rfl (h left right)
  · rfl

mutual

theorem mem_equalities_iff (left right : Expr) : (e : Expr) →
    ((left, right) ∈ e.equalities registry ↔
      ∃ found, Reaches registry e found ∧ IsEquality registry left right found)
  | .path p => iff_of_false (by simp [equalities]) fun ⟨_, .here _, _, _, _, h⟩ => by cases h
  | .constant v => iff_of_false (by simp [equalities]) fun ⟨_, .here _, _, _, _, h⟩ => by cases h
  | .param name => iff_of_false (by simp [equalities]) fun ⟨_, .here _, _, _, _, h⟩ => by cases h
  | .operation op args => by
      rw [equalities]
      split
      · rename_i hconj
        rw [mem_equalitiesAll_iff left right args]
        constructor
        · rintro ⟨arg, harg, found, hreaches, hequality⟩
          exact ⟨found, .through hconj harg hreaches, hequality⟩
        · rintro ⟨found, hreaches, hequality⟩
          cases hreaches with
          | here =>
              obtain ⟨_, -, hnot, hsame⟩ := hequality
              cases hsame
              rw [hconj] at hnot
              cases hnot
          | through _ harg hreaches => exact ⟨_, harg, found, hreaches, hequality⟩
      · rename_i hconj
        rw [Bool.not_eq_true] at hconj
        -- Nothing below is reached any more, so it is the operation itself or nothing.
        split
        · rename_i hequality
          rw [mem_sides_iff]
          constructor
          · rintro rfl
            exact ⟨_, .here _, op, hequality, hconj, rfl⟩
          · rintro ⟨found, hreaches, _, -, -, hsame⟩
            rw [reaches_of_not_conjunction hconj hreaches] at hsame
            cases hsame
            rfl
        · rename_i hnot
          refine iff_of_false (by simp) ?_
          rintro ⟨found, hreaches, _, hequality, -, hsame⟩
          rw [reaches_of_not_conjunction hconj hreaches] at hsame
          cases hsame
          exact hnot hequality

theorem mem_equalitiesAll_iff (left right : Expr) : (es : List Expr) →
    ((left, right) ∈ equalitiesAll registry es ↔
      ∃ e ∈ es, ∃ found, Reaches registry e found ∧ IsEquality registry left right found)
  | [] => by simp [equalitiesAll]
  | e :: es => by
      rw [equalitiesAll, List.mem_append, mem_equalities_iff left right e,
        mem_equalitiesAll_iff left right es, List.exists_mem_cons_iff]

end

end Expr

namespace Extension

variable {c c' : Context σ} {s s' : Session σ}

/-- An equality is tried in both orientations, the second one only if the first comes to nothing. -/
def pinEither (equality : Expr × Expr) : Extension σ Nat := do
  if ← pin equality.1 equality.2 then
    return 1
  else if ← pin equality.2 equality.1 then
    return 1
  else
    return 0

def pinAll : List (Expr × Expr) → Extension σ Nat
  | [] => return 0
  | equality :: equalities => do
      let n ← pinEither equality
      return n + (← pinAll equalities)

theorem pinAll_singleton (equality : Expr × Expr) :
    (pinAll [equality] : Extension σ Nat) = pinEither equality := by
  simp only [pinAll, pure_bind, Nat.add_zero, bind_pure]

theorem pinAll_append (xs ys : List (Expr × Expr)) :
    (pinAll (xs ++ ys) : Extension σ Nat) = do
      let n ← pinAll xs
      let m ← pinAll ys
      return n + m := by
  induction xs with
  | nil => simp only [List.nil_append, pinAll, pure_bind, Nat.zero_add, bind_pure]
  | cons x xs ih => simp only [List.cons_append, pinAll, ih, bind_assoc, pure_bind, Nat.add_assoc]

/-- How the orientations of an equality follow one another. -/
inductive PinsEither (c : Context σ) (s : Session σ) (equality : Expr × Expr) :
    Except Error Nat × Context σ × Session σ → Prop where
  | first {c' : Context σ} {s' : Session σ}
      (pinned : pin equality.1 equality.2 (c, s) = (.ok true, c', s')) :
      PinsEither c s equality (.ok 1, c', s')
  | second {b : Bool} {c' : Context σ} {s₁ s' : Session σ}
      (declined : pin equality.1 equality.2 (c, s) = (.ok false, c, s₁))
      (pinned : pin equality.2 equality.1 (c, s₁) = (.ok b, c', s')) :
      PinsEither c s equality (.ok b.toNat, c', s')
  | failedFirst {e : Error} {s' : Session σ}
      (failed : pin equality.1 equality.2 (c, s) = (.error e, c, s')) :
      PinsEither c s equality (.error e, c, s')
  | failedSecond {e : Error} {s₁ s' : Session σ}
      (declined : pin equality.1 equality.2 (c, s) = (.ok false, c, s₁))
      (failed : pin equality.2 equality.1 (c, s₁) = (.error e, c, s')) :
      PinsEither c s equality (.error e, c, s')

theorem gains_of_pinned {target key : Expr}
    (h : pin target key (c, s) = (.ok true, c', s')) :
    ∃ entry, c.Gains [entry] c' ∧ s.KeepsFor c.scope.source [entry] s' := by
  rcases pin_gains h with ⟨-, hgains⟩ | ⟨hnot, -⟩
  · exact hgains
  · exact absurd rfl hnot

theorem keepsFor_of_declined {target key : Expr} {x : Except Error Bool}
    (h : pin target key (c, s) = (x, c', s')) (hx : x ≠ .ok true) :
    c' = c ∧ s.KeepsFor c.scope.source [] s' := by
  rcases pin_gains h with ⟨hpinned, -⟩ | ⟨-, hsame⟩
  · exact absurd hpinned hx
  · exact hsame

theorem pinsEither (equality : Expr × Expr) (c : Context σ) (s : Session σ) :
    PinsEither c s equality (pinEither equality (c, s)) := by
  unfold pinEither
  rcases hfirst : pin equality.1 equality.2 (c, s) with ⟨e | b, c₁, s₁⟩
  · cases (keepsFor_of_declined hfirst (by simp)).1
    rw [bind_of_error hfirst]
    exact .failedFirst hfirst
  · rw [bind_of_ok hfirst]
    cases b with
    | true => exact .first hfirst
    | false =>
        cases (keepsFor_of_declined hfirst (by simp)).1
        simp only [Bool.false_eq_true, if_false]
        rcases hsecond : pin equality.2 equality.1 (c, s₁) with ⟨e | b, c', s'⟩
        · cases (keepsFor_of_declined hsecond (by simp)).1
          rw [bind_of_error hsecond]
          exact .failedSecond hfirst hsecond
        · rw [bind_of_ok hsecond]
          cases b with
          | true => exact .second hfirst hsecond
          | false => exact .second hfirst hsecond

theorem pinEither_gains {equality : Expr × Expr} {x : Except Error Nat}
    (h : pinEither equality (c, s) = (x, c', s')) :
    (∃ added, x = .ok added.length ∧ c.Gains added c' ∧ s.KeepsFor c.scope.source added s') ∨
      (∃ e, x = .error e ∧ c' = c ∧ s.KeepsFor c.scope.source [] s') := by
  have hpins := pinsEither equality c s
  rw [h] at hpins
  cases hpins with
  | first pinned =>
      obtain ⟨entry, hgains, hkeeps⟩ := gains_of_pinned pinned
      exact .inl ⟨[entry], rfl, hgains, hkeeps⟩
  | @second b _ _ _ declined pinned =>
      obtain ⟨-, hdeclined⟩ := keepsFor_of_declined declined (by simp)
      cases b with
      | true =>
          obtain ⟨entry, hgains, hkeeps⟩ := gains_of_pinned pinned
          exact .inl ⟨[entry], rfl, hgains, hdeclined.trans hkeeps⟩
      | false =>
          obtain ⟨rfl, hkeeps⟩ := keepsFor_of_declined pinned (by simp)
          exact .inl ⟨[], rfl, .nothing c', hdeclined.trans hkeeps⟩
  | failedFirst failed =>
      exact .inr ⟨_, rfl, rfl, (keepsFor_of_declined failed (by simp)).2⟩
  | failedSecond declined failed =>
      obtain ⟨-, hdeclined⟩ := keepsFor_of_declined declined (by simp)
      exact .inr ⟨_, rfl, rfl, hdeclined.trans (keepsFor_of_declined failed (by simp)).2⟩

/-- How a walk goes on: by the next equality, unless that fails. -/
inductive PinsAll : Context σ → Session σ → List (Expr × Expr) → Except Error Nat →
    Context σ → Session σ → Prop where
  | nil (c : Context σ) (s : Session σ) : PinsAll c s [] (.ok 0) c s
  | cons {c c₁ c' : Context σ} {s s₁ s' : Session σ} {equality : Expr × Expr}
      {equalities : List (Expr × Expr)} {n : Nat} {x : Except Error Nat}
      (first : pinEither equality (c, s) = (.ok n, c₁, s₁))
      (rest : PinsAll c₁ s₁ equalities x c' s') :
      PinsAll c s (equality :: equalities) (x.map (n + ·)) c' s'
  | aborted {c c' : Context σ} {s s' : Session σ} {equality : Expr × Expr}
      {equalities : List (Expr × Expr)} {e : Error}
      (failed : pinEither equality (c, s) = (.error e, c', s')) :
      PinsAll c s (equality :: equalities) (.error e) c' s'

theorem pinsAll {equalities : List (Expr × Expr)} {x : Except Error Nat}
    (h : pinAll equalities (c, s) = (x, c', s')) : PinsAll c s equalities x c' s' := by
  induction equalities generalizing c s x c' s' with
  | nil =>
      cases h
      exact .nil c s
  | cons equality equalities ih =>
      rw [pinAll] at h
      rcases hfirst : pinEither equality (c, s) with ⟨e | n, c₁, s₁⟩
      · rw [bind_of_error hfirst] at h
        cases h
        exact .aborted hfirst
      · rw [bind_of_ok hfirst] at h
        rcases hrest : pinAll equalities (c₁, s₁) with ⟨e | m, c₂, s₂⟩
        · rw [bind_of_error hrest] at h
          cases h
          exact .cons hfirst (ih hrest)
        · rw [bind_of_ok hrest] at h
          cases h
          exact .cons hfirst (ih hrest)

/-- The walk has come to an equality that fails and has nothing kept. Those before it have counted
`n` registrations, which are there still. -/
def Aborts (equalities : List (Expr × Expr)) (c : Context σ) (s : Session σ) (e : Error) (n : Nat)
    (c' : Context σ) (s' : Session σ) : Prop :=
  ∃ before equality after s₁,
    equalities = before ++ equality :: after ∧ pinAll before (c, s) = (.ok n, c', s₁) ∧
      pinEither equality (c', s₁) = (.error e, c', s') ∧ s'.cache = s₁.cache

/-- The walk adds as many registrations as it counts, or as were counted when it was aborted. -/
theorem pinAll_gains {equalities : List (Expr × Expr)} {x : Except Error Nat}
    (h : pinAll equalities (c, s) = (x, c', s')) :
    ∃ added, c.Gains added c' ∧ s.KeepsFor c.scope.source added s' ∧
      (∀ n, x = .ok n → n = added.length) ∧
      ∀ e, x = .error e → Aborts equalities c s e added.length c' s' := by
  have hpins := pinsAll h
  clear h
  induction hpins with
  | nil c s => exact ⟨[], .nothing c, .nothing _ s, by rintro n ⟨⟩; rfl, by simp⟩
  | @cons c c₁ c' s s₁ s' equality equalities n x first rest ih =>
      obtain ⟨more, hmore, hmoreKept, hcount, haborted⟩ := ih
      rcases pinEither_gains first with ⟨added, hn, hgains, hkept⟩ | ⟨_, hfailed, -⟩
      · cases hn
        rw [hgains.scope_eq] at hmoreKept
        refine ⟨added ++ more, hgains.trans hmore, hkept.trans hmoreKept, ?_, ?_⟩
        · rcases x with e | m
          · simp [Except.map]
          · rintro _ ⟨⟩
            rw [hcount m rfl, List.length_append]
        · rcases x with e | m
          · rintro _ ⟨⟩
            obtain ⟨before, failing, after, s₂, rfl, hbefore, hfailing⟩ := haborted e rfl
            refine ⟨equality :: before, failing, after, s₂, rfl, ?_, hfailing⟩
            rw [pinAll, bind_of_ok first, bind_of_ok hbefore, List.length_append]
            rfl
          · simp [Except.map]
      · cases hfailed
  | @aborted c c' s s' equality equalities e failed =>
      rcases pinEither_gains failed with ⟨_, hok, -⟩ | ⟨-, -, rfl, hkept⟩
      · cases hok
      · refine ⟨[], .nothing c', hkept, by simp, ?_⟩
        rintro _ ⟨⟩
        exact ⟨[], equality, equalities, s, rfl, rfl, failed, hkept.cache_eq⟩

/-! ## Discovery is a walk -/

theorem bind_congr_of_scope {act act' : Extension σ α} {f g : α → Extension σ β}
    (hact : act (c, s) = act' (c, s))
    (hf : ∀ a c' s', c'.scope = c.scope → f a (c', s') = g a (c', s'))
    (hscope : (act' (c, s)).2.1.scope = c.scope) :
    (act >>= f) (c, s) = (act' >>= g) (c, s) := by
  rcases h : act' (c, s) with ⟨e | a, c', s'⟩
  · rw [bind_of_error (hact.trans h), bind_of_error h]
  · rw [h] at hscope
    rw [bind_of_ok (hact.trans h), bind_of_ok h]
    exact hf a c' s' hscope

theorem scope_pinAll (equalities : List (Expr × Expr)) (c : Context σ) (s : Session σ) :
    (pinAll equalities (c, s)).2.1.scope = c.scope := by
  rcases h : pinAll equalities (c, s) with ⟨x, c', s'⟩
  obtain ⟨added, hgains, -⟩ := pinAll_gains h
  exact hgains.scope_eq

mutual

/-- Discovery considers the equalities that the condition reaches, from left to right, and nothing
else. -/
theorem discover_eq_pinAll : (e : Expr) → ∀ (c : Context σ) (s : Session σ),
    discover e (c, s) = pinAll (e.equalities c.scope.registry) (c, s)
  | .path _, _, _ | .constant _, _, _ | .param _, _, _ => rfl
  | .operation op args, c, s => by
      simp only [discover, Expr.equalities]
      rw [bind_context]
      split
      · exact discoverAll_eq_pinAll args c s
      · split
        · split
          · rename_i left right
            rw [Expr.sides, pinAll_singleton]
            rfl
          · rename_i hnot
            rw [Expr.sides_eq_nil fun left right h => hnot left right h]
            rfl
        · rfl

theorem discoverAll_eq_pinAll : (es : List Expr) → ∀ (c : Context σ) (s : Session σ),
    discoverAll es (c, s) = pinAll (Expr.equalitiesAll c.scope.registry es) (c, s)
  | [], _, _ => rfl
  | e :: es, c, s => by
      rw [Expr.equalitiesAll, pinAll_append, discoverAll]
      refine bind_congr_of_scope (discover_eq_pinAll e c s) (fun n c' s' hscope => ?_)
        (scope_pinAll _ c s)
      rw [← hscope]
      refine bind_congr_of_scope (discoverAll_eq_pinAll es c' s') (fun _ _ _ _ => rfl)
        (scope_pinAll _ c' s')

end

end Extension

end IndexedQuery
