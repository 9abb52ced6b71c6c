import IndexedQuery.Proofs.Session.Run

namespace IndexedQuery

variable {S ε α β σ : Type}

/-- From every state with the property `P` the computation keeps it, and it answers as `Q` says or
fails as `E` says. -/
def Ensures (P : S → Prop) (E : ε → Prop) (Q : α → Prop) (act : ExceptT ε (StateM S) α) : Prop :=
  ∀ s, P s → P (act s).2 ∧
    match (act s).1 with
    | .ok a => Q a
    | .error e => E e

namespace Ensures

variable {P : S → Prop} {E : ε → Prop} {Q Q' : α → Prop} {act : ExceptT ε (StateM S) α}

theorem pure {a : α} (h : Q a) : Ensures P E Q (Pure.pure a : ExceptT ε (StateM S) α) :=
  fun _ hs => ⟨hs, h⟩

theorem throw {e : ε} (h : E e) : Ensures P E Q (throw e : ExceptT ε (StateM S) α) :=
  fun _ hs => ⟨hs, h⟩

theorem mono (h : Ensures P E Q act) (hanswer : ∀ a, Q a → Q' a) : Ensures P E Q' act := by
  intro s hs
  obtain ⟨hkept, houtcome⟩ := h s hs
  refine ⟨hkept, ?_⟩
  split
  · rename_i a hact
    rw [hact] at houtcome
    exact hanswer a houtcome
  · rename_i e hact
    rw [hact] at houtcome
    exact houtcome

theorem bind {R : β → Prop} {f : α → ExceptT ε (StateM S) β} (hact : Ensures P E Q act)
    (hf : ∀ a, Q a → Ensures P E R (f a)) : Ensures P E R (act >>= f) := by
  intro s hs
  obtain ⟨hkept, houtcome⟩ := hact s hs
  rcases h : act s with ⟨e | a, s'⟩
  · rw [h] at hkept houtcome
    rw [bind_of_error h]
    exact ⟨hkept, houtcome⟩
  · rw [h] at hkept houtcome
    rw [bind_of_ok h]
    exact hf a houtcome s' hkept

theorem map {R : β → Prop} {f : α → β} (hact : Ensures P E Q act) (hf : ∀ a, Q a → R (f a)) :
    Ensures P E R (f <$> act) := by
  rw [← bind_pure_comp]
  exact hact.bind fun a ha => .pure (hf a ha)

theorem mapM {R : β → Prop} {f : α → ExceptT ε (StateM S) β} {as : List α}
    (hf : ∀ a ∈ as, Ensures P E R (f a)) : Ensures P E (fun bs => ∀ b ∈ bs, R b) (as.mapM f) := by
  induction as with
  | nil => exact .pure (by simp)
  | cons a as ih =>
      rw [List.mapM_cons]
      refine (hf a (.head as)).bind fun first hfirst => ?_
      refine (ih fun a ha => hf a (.tail _ ha)).bind fun rest hrest => ?_
      exact .pure (List.forall_mem_cons.mpr ⟨hfirst, hrest⟩)

end Ensures

theorem Keeps.ensures {P : S → Prop} {act : ExceptT ε (StateM S) α} (h : Keeps P act) :
    Ensures P (fun _ => True) (fun _ => True) act := by
  intro s hs
  refine ⟨h s hs, ?_⟩
  rcases (act s).1 with e | a <;> trivial

namespace Run

variable {P : Session σ → Prop} {E E' : Error → Prop} {Q : α → Prop}

theorem lift_ensures {x : Except Error α} (hok : ∀ a, x = .ok a → Q a)
    (herror : ∀ e, x = .error e → E e) : Ensures P E Q (liftM x : Run σ α) := by
  intro s hs
  rw [lift_apply]
  refine ⟨hs, ?_⟩
  rcases x with e | a
  · exact herror e rfl
  · exact hok a rfl

theorem orKeyError_ensures {act : Run σ α} (h : Ensures P E Q act)
    (hE : ∀ e, E e → (∃ path cause, e = .indexKey path cause) ∨ E' e) :
    Ensures P E' (fun answer => ∀ a, answer = .ok a → Q a) (orKeyError act) := by
  intro s hs
  obtain ⟨hkept, houtcome⟩ := h s hs
  rcases hact : act s with ⟨e | a, s'⟩
  · rw [hact] at hkept houtcome
    rw [orKeyError_of_error hact]
    rcases hE e houtcome with ⟨path, cause, rfl⟩ | hremains
    · exact ⟨hkept, by simp⟩
    · split
      · exact ⟨hkept, by simp⟩
      · exact ⟨hkept, hremains⟩
  · rw [hact] at hkept houtcome
    rw [orKeyError_of_ok hact]
    refine ⟨hkept, ?_⟩
    rintro _ ⟨⟩
    exact houtcome

end Run

end IndexedQuery
