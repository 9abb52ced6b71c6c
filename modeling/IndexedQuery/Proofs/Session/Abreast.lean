import IndexedQuery.Proofs.Evaluator.Alike
import IndexedQuery.Proofs.Session.Lockstep

namespace IndexedQuery

variable {S ε α β γ δ σ : Type}

def Abreast (R : S → S → Prop) (A : α → β → Prop) (act : ExceptT ε (StateM S) α)
    (act' : ExceptT ε (StateM S) β) : Prop :=
  ∀ s s', R s s' → Alike A (act s).1 (act' s').1 ∧ R (act s).2 (act' s').2

theorem Lockstep.abreast {R : S → S → Prop} {act : ExceptT ε (StateM S) α}
    (h : Lockstep R act) : Abreast R Eq act act := by
  intro s s' hs
  obtain ⟨hanswer, hstate⟩ := h s s' hs
  rw [hanswer]
  exact ⟨.refl (fun _ => rfl) _, hstate⟩

namespace Abreast

variable {R : S → S → Prop} {A : α → β → Prop} {B : γ → δ → Prop}
  {act : ExceptT ε (StateM S) α} {act' : ExceptT ε (StateM S) β}

theorem lockstep {act act' : ExceptT ε (StateM S) α} (h : Abreast R Eq act act') {s s' : S}
    (hs : R s s') : (act s).1 = (act' s').1 ∧ R (act s).2 (act' s').2 :=
  ⟨(h s s' hs).1.eq, (h s s' hs).2⟩

theorem eq {act act' : ExceptT ε (StateM S) α} (h : Abreast Eq Eq act act') : act = act' := by
  funext s
  obtain ⟨hanswer, hstate⟩ := h.lockstep (rfl : s = s)
  exact Prod.ext hanswer hstate

theorem refl (act : ExceptT ε (StateM S) α) : Abreast Eq Eq act act := by
  rintro s _ rfl
  exact ⟨.refl (fun _ => rfl) _, rfl⟩

theorem pure {a : α} {b : β} (h : A a b) :
    Abreast R A (Pure.pure a : ExceptT ε (StateM S) α) (Pure.pure b) :=
  fun _ _ hs => ⟨.ok h, hs⟩

theorem throw (e : ε) : Abreast R A (throw e : ExceptT ε (StateM S) α) (throw e) :=
  fun _ _ hs => ⟨.error e, hs⟩

theorem bind {f : α → ExceptT ε (StateM S) γ} {f' : β → ExceptT ε (StateM S) δ}
    (hact : Abreast R A act act') (hf : ∀ a b, A a b → Abreast R B (f a) (f' b)) :
    Abreast R B (act >>= f) (act' >>= f') := by
  intro s s' hs
  obtain ⟨hanswer, hstate⟩ := hact s s' hs
  rcases h : act s with ⟨x, t⟩
  rcases h' : act' s' with ⟨x', t'⟩
  rw [h, h'] at hanswer hstate
  cases hanswer with
  | ok hab =>
      rw [bind_of_ok h, bind_of_ok h']
      exact hf _ _ hab t t' hstate
  | error e =>
      rw [bind_of_error h, bind_of_error h']
      exact ⟨.error e, hstate⟩

theorem map {f : α → γ} {f' : β → δ} (hact : Abreast R A act act')
    (hf : ∀ a b, A a b → B (f a) (f' b)) : Abreast R B (f <$> act) (f' <$> act') := by
  rw [← bind_pure_comp, ← bind_pure_comp]
  exact hact.bind fun a b hab => .pure (hf a b hab)

end Abreast

namespace Run

variable {R : Session σ → Session σ → Prop} {A : α → β → Prop}

theorem lift_abreast {x : Except Error α} {y : Except Error β} (h : Alike A x y) :
    Abreast R A (liftM x : Run σ α) (liftM y) := by
  intro s s' hs
  rw [lift_apply, lift_apply]
  exact ⟨h, hs⟩

end Run

end IndexedQuery
