import IndexedQuery.Proofs.Evaluator.Meaning

namespace IndexedQuery

variable {ε α β γ δ : Type}

inductive Alike (A : α → β → Prop) : Except ε α → Except ε β → Prop where
  | ok {a : α} {b : β} (h : A a b) : Alike A (.ok a) (.ok b)
  | error (e : ε) : Alike A (.error e) (.error e)

namespace Alike

variable {A : α → β → Prop} {B : γ → δ → Prop} {x : Except ε α} {y : Except ε β}

theorem refl {A : α → α → Prop} (hA : ∀ a, A a a) (x : Except ε α) : Alike A x x := by
  rcases x with e | a
  · exact .error e
  · exact .ok (hA a)

theorem eq {x y : Except ε α} (h : Alike Eq x y) : x = y := by
  cases h with
  | ok h => rw [h]
  | error e => rfl

theorem mono {A' : α → β → Prop} (h : Alike A x y)
    (hA : ∀ a b, x = .ok a → y = .ok b → A a b → A' a b) : Alike A' x y := by
  cases h with
  | ok h => exact .ok (hA _ _ rfl rfl h)
  | error e => exact .error e

theorem bind {f : α → Except ε γ} {g : β → Except ε δ} (h : Alike A x y)
    (hf : ∀ a b, A a b → Alike B (f a) (g b)) : Alike B (x >>= f) (y >>= g) := by
  cases h with
  | ok h => exact hf _ _ h
  | error e => exact .error e

theorem map {f : α → γ} {g : β → δ} (h : Alike A x y) (hf : ∀ a b, A a b → B (f a) (g b)) :
    Alike B (f <$> x) (g <$> y) := by
  cases h with
  | ok h => exact .ok (hf _ _ h)
  | error e => exact .error e

theorem mapM {f : γ → Except ε α} {g : γ → Except ε β} {xs : List γ}
    (h : ∀ x ∈ xs, Alike A (f x) (g x)) : Alike (List.Forall₂ A) (xs.mapM f) (xs.mapM g) := by
  induction xs with
  | nil => exact .ok .nil
  | cons x xs ih =>
      rw [List.mapM_cons, List.mapM_cons]
      refine (h x (.head xs)).bind fun a b hfirst => ?_
      refine (ih fun y hy => h y (.tail x hy)).bind fun as bs hrest => ?_
      exact .ok (.cons hfirst hrest)

end Alike

theorem compile_alike {sources sources' : List Expr} {e e' : Expr}
    {A : Evaluator → Evaluator → Prop}
    (h : Alike (fun _ _ => True) (Term.ofExpr sources e) (Term.ofExpr sources' e'))
    (hA : ∀ evaluator evaluator', compile sources e = .ok evaluator →
      compile sources' e' = .ok evaluator' → A evaluator evaluator') :
    Alike A (compile sources e) (compile sources' e') := by
  have hcompile : Alike (fun _ _ => True) (compile sources e) (compile sources' e') := by
    refine h.bind fun t t' _ => ?_
    split <;> split <;> exact .ok trivial
  exact hcompile.mono fun evaluator evaluator' hev hev' _ => hA evaluator evaluator' hev hev'

end IndexedQuery
