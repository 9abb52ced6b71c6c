import IndexedQuery.Session

namespace IndexedQuery

variable {S ε α β σ : Type}

theorem bind_of_ok {act : ExceptT ε (StateM S) α} {f : α → ExceptT ε (StateM S) β}
    {s s' : S} {a : α} (h : act s = (.ok a, s')) : (act >>= f) s = f a s' := by
  change (match act s with | (a, s') => ExceptT.bindCont f a s') = _
  rw [h]
  rfl

theorem bind_of_error {act : ExceptT ε (StateM S) α} {f : α → ExceptT ε (StateM S) β}
    {s s' : S} {e : ε} (h : act s = (.error e, s')) : (act >>= f) s = (.error e, s') := by
  change (match act s with | (a, s') => ExceptT.bindCont f a s') = _
  rw [h]
  rfl

theorem map_of_ok {act : ExceptT ε (StateM S) α} {f : α → β} {s s' : S} {a : α}
    (h : act s = (.ok a, s')) : (f <$> act) s = (.ok (f a), s') := by
  rw [← bind_pure_comp]
  exact bind_of_ok h

theorem map_of_error {act : ExceptT ε (StateM S) α} {f : α → β} {s s' : S} {e : ε}
    (h : act s = (.error e, s')) : (f <$> act) s = (.error e, s') := by
  rw [← bind_pure_comp]
  exact bind_of_error h

theorem map_apply (f : α → β) (act : ExceptT ε (StateM S) α) (s : S) :
    (f <$> act) s = (f <$> (act s).1, (act s).2) := by
  rcases hact : act s with ⟨e | a, s'⟩
  · exact map_of_error hact
  · exact map_of_ok hact

theorem tryCatch_of_ok {act : ExceptT ε (StateM S) α} {handle : ε → ExceptT ε (StateM S) α}
    {s s' : S} {a : α} (h : act s = (.ok a, s')) : tryCatch act handle s = (.ok a, s') := by
  change (ExceptT.tryCatch act handle) s = _
  simp only [ExceptT.tryCatch, ExceptT.mk, bind, StateT.bind, h]
  rfl

theorem tryCatch_of_error {act : ExceptT ε (StateM S) α} {handle : ε → ExceptT ε (StateM S) α}
    {s s' : S} {e : ε} (h : act s = (.error e, s')) : tryCatch act handle s = handle e s' := by
  change (ExceptT.tryCatch act handle) s = _
  simp only [ExceptT.tryCatch, ExceptT.mk, bind, StateT.bind, h]

/-- The computation keeps a property of the state, whether it succeeds or fails. -/
def Keeps (P : S → Prop) (act : ExceptT ε (StateM S) α) : Prop :=
  ∀ s, P s → P (act s).2

/-- From every state with the property the computation comes to the outcome `x`, and the property
stays. -/
def Gives (P : S → Prop) (act : ExceptT ε (StateM S) α) (x : Except ε α) : Prop :=
  ∀ s, P s → ∃ s', act s = (x, s') ∧ P s'

namespace Gives

variable {P : S → Prop}

theorem pure (a : α) : Gives P (Pure.pure a : ExceptT ε (StateM S) α) (.ok a) :=
  fun s hs => ⟨s, rfl, hs⟩

theorem throw (e : ε) : Gives P (throw e : ExceptT ε (StateM S) α) (.error e) :=
  fun s hs => ⟨s, rfl, hs⟩

theorem bind {act : ExceptT ε (StateM S) α} {f : α → ExceptT ε (StateM S) β} {x : Except ε α}
    {y : α → Except ε β} (hact : Gives P act x) (hf : ∀ a, Gives P (f a) (y a)) :
    Gives P (act >>= f) (x >>= y) := by
  intro s hs
  obtain ⟨s', hrun, hs'⟩ := hact s hs
  rcases x with e | a
  · exact ⟨s', bind_of_error hrun, hs'⟩
  · rw [bind_of_ok hrun]
    exact hf a s' hs'

theorem map {act : ExceptT ε (StateM S) α} {x : Except ε α} (f : α → β) (hact : Gives P act x) :
    Gives P (f <$> act) (f <$> x) := by
  intro s hs
  obtain ⟨s', hrun, hs'⟩ := hact s hs
  exact ⟨s', by rw [map_apply, hrun], hs'⟩

theorem bind_of_answers {act : ExceptT ε (StateM S) α} {f : α → ExceptT ε (StateM S) β}
    {Q : α → Prop} {x : Except ε β}
    (hact : ∀ s, P s → ∃ a s', act s = (.ok a, s') ∧ P s' ∧ Q a)
    (hf : ∀ a, Q a → Gives P (f a) x) : Gives P (act >>= f) x := by
  intro s hs
  obtain ⟨a, s', hrun, hs', ha⟩ := hact s hs
  rw [bind_of_ok hrun]
  exact hf a ha s' hs'

theorem mapM {f : α → ExceptT ε (StateM S) β} {y : α → Except ε β}
    (hf : ∀ a, Gives P (f a) (y a)) (as : List α) : Gives P (as.mapM f) (as.mapM y) := by
  induction as with
  | nil => exact .pure []
  | cons a as ih =>
      rw [List.mapM_cons, List.mapM_cons]
      exact (hf a).bind fun first => ih.bind fun rest => .pure (first :: rest)

end Gives

namespace Run

theorem read_apply (source : Source σ) (name : String) (s : Session σ) :
    read source name s =
      ((source.pass s.source name).1,
        { s with source := (source.pass s.source name).2, passes := name :: s.passes }) :=
  rfl

theorem lift_apply (x : Except Error α) (s : Session σ) : (liftM x : Run σ α) s = (x, s) :=
  rfl

theorem lift_bind_congr {x : Except Error α} {f g : α → Run σ β}
    (h : ∀ a, x = .ok a → f a = g a) : (liftM x : Run σ α) >>= f = liftM x >>= g := by
  rcases x with e | a
  · rfl
  · funext s
    have hlift := lift_apply (Except.ok a) s
    rw [bind_of_ok hlift, bind_of_ok hlift, h a rfl]

theorem lift_gives (P : Session σ → Prop) (x : Except Error α) : Gives P (liftM x : Run σ α) x :=
  fun s hs => ⟨s, lift_apply x s, hs⟩

theorem bind_cache (f : PathCache → Run σ α) (s : Session σ) :
    (getThe PathCache >>= f) s = f s.cache s :=
  rfl

theorem bind_report (e : Event) (f : Unit → Run σ α) (s : Session σ) :
    (report e >>= f) s = f () { s with log := e :: s.log } :=
  rfl

theorem orKeyError_of_ok {act : Run σ α} {s s' : Session σ} {a : α} (h : act s = (.ok a, s')) :
    orKeyError act s = (.ok (.ok a), s') :=
  tryCatch_of_ok (map_of_ok h)

theorem orKeyError_of_error {act : Run σ α} {s s' : Session σ} {e : Error}
    (h : act s = (.error e, s')) :
    orKeyError act s =
      match e with
      | .indexKey path cause => (.ok (.error (.indexKey path cause)), s')
      | e => (.error e, s') := by
  rw [orKeyError, tryCatch_of_error (map_of_error h)]
  cases e <;> rfl

theorem orKeyError_keeps {P : Session σ → Prop} {act : Run σ α} (h : Keeps P act) :
    Keeps P (orKeyError act) := by
  intro s hs
  have hs' := h s hs
  rcases hact : act s with ⟨e | a, s'⟩
  · rw [hact] at hs'
    rw [orKeyError_of_error hact]
    split <;> exact hs'
  · rw [hact] at hs'
    rw [orKeyError_of_ok hact]
    exact hs'

end Run

end IndexedQuery
