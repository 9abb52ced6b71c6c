import IndexedQuery.Proofs.Session.Run

/-!
Computations in lockstep: from related states they come to the same answer and to related states
again. A property that a computation keeps is the case in which states are related to themselves
only. Of two computations from one state, the second may be safe to run where the first one is.
-/

namespace IndexedQuery

variable {S ε α β γ δ σ : Type}

def Lockstep (R : S → S → Prop) (act : ExceptT ε (StateM S) α) : Prop :=
  ∀ s s', R s s' → (act s).1 = (act s').1 ∧ R (act s).2 (act s').2

namespace Lockstep

variable {R : S → S → Prop}

theorem pure (a : α) : Lockstep R (Pure.pure a : ExceptT ε (StateM S) α) :=
  fun _ _ h => ⟨rfl, h⟩

theorem throw (e : ε) : Lockstep R (throw e : ExceptT ε (StateM S) α) :=
  fun _ _ h => ⟨rfl, h⟩

theorem bind_of_answer {act : ExceptT ε (StateM S) α} {f : α → ExceptT ε (StateM S) β}
    (hact : Lockstep R act)
    (hf : ∀ s s' a, R s s' → (act s).1 = .ok a → Lockstep R (f a)) :
    Lockstep R (act >>= f) := by
  intro s s' hs
  obtain ⟨hanswer, hstate⟩ := hact s s' hs
  rcases h : act s with ⟨x, t⟩
  rcases h' : act s' with ⟨x', t'⟩
  rw [h, h'] at hanswer hstate
  dsimp only at hanswer hstate
  subst x'
  rcases x with e | a
  · rw [bind_of_error h, bind_of_error h']
    exact ⟨rfl, hstate⟩
  · rw [bind_of_ok h, bind_of_ok h']
    exact hf s s' a hs (by rw [h]) t t' hstate

theorem bind {act : ExceptT ε (StateM S) α} {f : α → ExceptT ε (StateM S) β}
    (hact : Lockstep R act) (hf : ∀ a, Lockstep R (f a)) : Lockstep R (act >>= f) :=
  hact.bind_of_answer fun _ _ a _ _ => hf a

theorem map {act : ExceptT ε (StateM S) α} (f : α → β) (hact : Lockstep R act) :
    Lockstep R (f <$> act) := by
  rw [← bind_pure_comp]
  exact hact.bind fun a => .pure (f a)

end Lockstep

theorem keeps_iff_lockstep {P : S → Prop} {act : ExceptT ε (StateM S) α} :
    Keeps P act ↔ Lockstep (fun s s' => s = s' ∧ P s) act := by
  constructor
  · rintro h s _ ⟨rfl, hs⟩
    exact ⟨rfl, rfl, h s hs⟩
  · intro h s hs
    exact (h s s ⟨rfl, hs⟩).2.2

theorem Keeps.lockstep {P : S → Prop} {act : ExceptT ε (StateM S) α} (h : Keeps P act)
    (hanswer : ∀ s s', P s → P s' → (act s).1 = (act s').1) :
    Lockstep (fun s s' => P s ∧ P s') act :=
  fun s s' hs => ⟨hanswer s s' hs.1 hs.2, h s hs.1, h s' hs.2⟩

/-- Wherever the first computation succeeds, the second one comes to the same state and to what `g`
makes of the answer. -/
def Covers (g : α → β) (act : ExceptT ε (StateM S) α) (act' : ExceptT ε (StateM S) β) : Prop :=
  ∀ s s' a, act s = (.ok a, s') → act' s = (.ok (g a), s')

namespace Covers

variable {g : α → β} {h : γ → δ} {act : ExceptT ε (StateM S) α} {act' : ExceptT ε (StateM S) β}

theorem pure (g : α → β) (a : α) :
    Covers g (Pure.pure a : ExceptT ε (StateM S) α) (Pure.pure (g a)) := by
  intro s s' b hact
  cases hact
  rfl

theorem bind {f : α → ExceptT ε (StateM S) γ} {f' : β → ExceptT ε (StateM S) δ}
    (hact : Covers g act act') (hf : ∀ a, Covers h (f a) (f' (g a))) :
    Covers h (act >>= f) (act' >>= f') := by
  intro s s' c hrun
  rcases h : act s with ⟨e | a, t⟩
  · rw [bind_of_error h] at hrun
    cases hrun
  · rw [bind_of_ok h] at hrun
    rw [bind_of_ok (hact s t a h)]
    exact hf a t s' c hrun

theorem bind_same (act : ExceptT ε (StateM S) α) {f : α → ExceptT ε (StateM S) γ}
    {f' : α → ExceptT ε (StateM S) δ} (hf : ∀ a, Covers h (f a) (f' a)) :
    Covers h (act >>= f) (act >>= f') :=
  bind (g := id) (fun _ _ _ hact => hact) hf

theorem mapM {f : γ → ExceptT ε (StateM S) α} {f' : γ → ExceptT ε (StateM S) β}
    (hf : ∀ x, Covers g (f x) (f' x)) (xs : List γ) :
    Covers (List.map g) (xs.mapM f) (xs.mapM f') := by
  induction xs with
  | nil => exact .pure (List.map g) []
  | cons x xs ih =>
      rw [List.mapM_cons, List.mapM_cons]
      exact (hf x).bind fun first => ih.bind fun rest => .pure (List.map g) (first :: rest)

end Covers

namespace Run

variable {R : Session σ → Session σ → Prop}

theorem lift_lockstep (x : Except Error α) : Lockstep R (liftM x : Run σ α) := by
  intro s s' hs
  rw [lift_apply, lift_apply]
  exact ⟨rfl, hs⟩

theorem lift_covers {g : α → β} {x : Except Error α} {y : Except Error β}
    (h : ∀ a, x = .ok a → y = .ok (g a)) : Covers g (liftM x : Run σ α) (liftM y) := by
  intro s s' a hact
  cases hact
  rw [lift_apply, h a rfl]

theorem orKeyError_lockstep {act : Run σ α} (h : Lockstep R act) : Lockstep R (orKeyError act) := by
  intro s s' hs
  obtain ⟨hanswer, hstate⟩ := h s s' hs
  rcases hact : act s with ⟨x, t⟩
  rcases hact' : act s' with ⟨x', t'⟩
  rw [hact, hact'] at hanswer hstate
  dsimp only at hanswer hstate
  subst x'
  rcases x with e | a
  · rw [orKeyError_of_error hact, orKeyError_of_error hact']
    cases e <;> exact ⟨rfl, hstate⟩
  · rw [orKeyError_of_ok hact, orKeyError_of_ok hact']
    exact ⟨rfl, hstate⟩

end Run

end IndexedQuery
