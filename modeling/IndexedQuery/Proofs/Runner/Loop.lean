import IndexedQuery.Proofs.Runner.Gathering
import IndexedQuery.Proofs.Session.Lockstep

/-!
The nested loops without their shared bindings. A walk gives each round the rows bound so far
outright, and the loops do the same: a round starts with the slots from its own on as good as free,
and at the end they are.
-/

namespace IndexedQuery

variable {σ α β : Type}

/-- The bindings of a whole tuple and the arguments. -/
def bindingsOf (tuple : List Row) (args : List Value) : List Binding :=
  tuple.map .element ++ args.map .value

/-- The bindings in which the sources after some rows are still free. -/
def boundSoFar (bound : List Row) (free : Nat) (args : List Value) : List Binding :=
  bound.map .element ++ (List.replicate free .unbound ++ args.map .value)

theorem bindingsOf_eq_boundSoFar (tuple : List Row) (args : List Value) :
    bindingsOf tuple args = boundSoFar tuple 0 args :=
  rfl

theorem set_boundSoFar (bound : List Row) (free : Nat) (args : List Value) (row : Row) :
    (boundSoFar bound (free + 1) args).set bound.length (.element row) =
      boundSoFar (bound ++ [row]) free args := by
  simp [boundSoFar, List.replicate_succ]

theorem set_unbound_boundSoFar (bound : List Row) (free : Nat) (args : List Value) :
    (boundSoFar bound (free + 1) args).set bound.length .unbound =
      boundSoFar bound (free + 1) args := by
  simp [boundSoFar, List.replicate_succ]

section Slots

variable {bound : List Row} {free slot : Nat}

theorem getD_boundSoFar_of_bound (free : Nat) (args : List Value) {row : Row}
    (h : bound[slot]? = some row) :
    (boundSoFar bound free args).getD slot .unbound = .element row := by
  have hlt : slot < bound.length := (List.getElem?_eq_some_iff.mp h).1
  rw [List.getD_eq_getElem?_getD, boundSoFar, List.getElem?_append_left (by simpa using hlt)]
  simp [h]

theorem getD_boundSoFar_of_param {args : List Value} {n i : Nat} {v : Value}
    (hroots : bound.length + free = n) (h : args[i]? = some v) :
    (boundSoFar bound free args).getD (i + n) .unbound = .value v := by
  have hskip : i + n - bound.length - free = i := by omega
  rw [List.getD_eq_getElem?_getD, boundSoFar, List.getElem?_append_right (by simp; omega),
    List.getElem?_append_right (by simp; omega)]
  simp [hskip, h]

theorem getD_boundSoFar_congr (h : slot < bound.length + free) (args args' : List Value) :
    (boundSoFar bound free args).getD slot .unbound =
      (boundSoFar bound free args').getD slot .unbound := by
  have hsources : ∀ args, (boundSoFar bound free args)[slot]? =
      (bound.map Binding.element ++ List.replicate free .unbound)[slot]? := by
    intro args
    rw [boundSoFar, ← List.append_assoc, List.getElem?_append_left (by simpa using h)]
  rw [List.getD_eq_getElem?_getD, List.getD_eq_getElem?_getD, hsources, hsources]

end Slots

/-- The loops over the sources that follow those of the rows in `bound`. -/
def walk (resolve : Expr → List Binding → Run σ Elements)
    (leaf : List Row → Except Error (List α)) (args : List Value) (bound : List Row) :
    List Expr → Run σ (List α)
  | [] => liftM (leaf bound)
  | source :: sources => do
      let elements ← resolve source (boundSoFar bound (sources.length + 1) args)
      let found ← elements.toPass.mapM fun (item : Except Error Row) => do
        let row ← item
        walk resolve leaf args (bound ++ [row]) sources
      return found.flatten

namespace Loop

section Bind

variable {S : Type} {act : StateT (List Binding) (ExceptT Error (StateM S)) α}
  {f : α → StateT (List Binding) (ExceptT Error (StateM S)) β} {bindings bindings' : List Binding}
  {s s' : S}

theorem bind_of_ok {a : α} (h : act bindings s = (.ok (a, bindings'), s')) :
    (act >>= f) bindings s = f a bindings' s' :=
  IndexedQuery.bind_of_ok h

theorem bind_of_error {e : Error} (h : act bindings s = (.error e, s')) :
    (act >>= f) bindings s = (.error e, s') :=
  IndexedQuery.bind_of_error h

end Bind

/-- From the bindings `before` the loop does what a computation without bindings does, and if that
succeeds it leaves such bindings as `after` describes. -/
def Follows (act : Loop σ α) (before : List Binding) (plain : Run σ α)
    (after : List Binding → Prop) : Prop :=
  ∀ s, match plain s with
    | (.ok a, s') => ∃ bindings, after bindings ∧ act before s = (.ok (a, bindings), s')
    | (.error e, s') => act before s = (.error e, s')

namespace Follows

variable {act : Loop σ α} {before : List Binding} {plain : Run σ α}
  {after after' : List Binding → Prop}

theorem pure (a : α) (h : after before) :
    Follows (Pure.pure a : Loop σ α) before (Pure.pure a) after :=
  fun _ => ⟨before, h, rfl⟩

theorem mono (h : Follows act before plain after) (hafter : ∀ b, after b → after' b) :
    Follows act before plain after' := by
  intro s
  have hs := h s
  rcases hplain : plain s with ⟨e | a, s'⟩
  · rwa [hplain] at hs
  · rw [hplain] at hs
    obtain ⟨bindings, hbindings, hact⟩ := hs
    exact ⟨bindings, hafter bindings hbindings, hact⟩

theorem bind {f : α → Loop σ β} {g : α → Run σ β} (hact : Follows act before plain after)
    (hf : ∀ a bindings, after bindings → Follows (f a) bindings (g a) after') :
    Follows (act >>= f) before (plain >>= g) after' := by
  intro s
  have hs := hact s
  rcases hplain : plain s with ⟨e | a, s'⟩
  · rw [hplain] at hs
    rw [IndexedQuery.bind_of_error hplain]
    exact bind_of_error hs
  · rw [hplain] at hs
    obtain ⟨bindings, hbindings, hact⟩ := hs
    rw [IndexedQuery.bind_of_ok hplain, bind_of_ok hact]
    exact hf a bindings hbindings s'

theorem get {f : List Binding → Loop σ α} (hf : Follows (f before) before plain after) :
    Follows (MonadState.get >>= f) before plain after :=
  hf

theorem modify {f : Unit → Loop σ α} {change : List Binding → List Binding}
    (hf : Follows (f ()) (change before) plain after) :
    Follows (MonadState.modifyGet (fun bindings => ((), change bindings)) >>= f) before plain
      after :=
  hf

theorem run (act : Run σ α) (bindings : List Binding) :
    Follows (liftM act : Loop σ α) bindings act (· = bindings) := by
  intro s
  rcases hact : act s with ⟨e | a, s'⟩
  · exact IndexedQuery.bind_of_error hact
  · exact ⟨bindings, rfl, IndexedQuery.bind_of_ok hact⟩

theorem lift (x : Except Error α) (bindings : List Binding) :
    Follows (liftM x : Loop σ α) bindings (liftM x) (· = bindings) := by
  intro s
  rcases x with e | a
  · rfl
  · exact ⟨bindings, rfl, rfl⟩

theorem eq_map (h : Follows act before plain (· = before)) :
    act before = (·, before) <$> plain := by
  funext s
  have hs := h s
  rw [map_apply]
  rcases hplain : plain s with ⟨e | a, s'⟩
  · rw [hplain] at hs
    exact hs
  · rw [hplain] at hs
    obtain ⟨_, rfl, hact⟩ := hs
    exact hact

end Follows

theorem mapM_follows {slot : Nat} {bindings : List Binding} {inner : Loop σ α}
    {plain : Row → Run σ α}
    (hinner : ∀ row, Follows inner (bindings.set slot (.element row)) (plain row)
      (· = bindings.set slot (.element row)))
    (pass : Pass) (before : List Binding)
    (hbefore : ∀ b, before.set slot b = bindings.set slot b) :
    Follows
      (pass.mapM fun (item : Except Error Row) => do
        let row ← item
        modify (·.set slot (.element row))
        inner)
      before
      (pass.mapM fun (item : Except Error Row) => do
        let row ← item
        plain row)
      fun after => ∀ b, after.set slot b = bindings.set slot b := by
  induction pass generalizing before with
  | nil => exact .pure [] hbefore
  | cons item pass ih =>
      -- The row of the round before is still in the slot, until this round puts its own there.
      have hround : Follows
          (do
            let row ← item
            modify (·.set slot (.element row))
            inner)
          before
          (do
            let row ← item
            plain row)
          fun after => ∀ b, after.set slot b = bindings.set slot b := by
        refine (Follows.lift item before).bind fun row _ hsame => ?_
        subst hsame
        apply Follows.modify
        rw [hbefore]
        refine (hinner row).mono ?_
        rintro _ rfl b
        exact List.set_set ..
      rw [List.mapM_cons, List.mapM_cons]
      refine hround.bind fun first between hbetween => ?_
      exact (ih between hbetween).bind fun rest after hafter => .pure (first :: rest) hafter

end Loop

/-- The loops do what the walk does, and leave the bindings as they were. -/
theorem iterate_eq_walk (resolve : Expr → List Binding → Run σ Elements)
    (leaf : List Binding → Except Error (List α)) (args : List Value) (bound : List Row)
    (sources : List Expr) :
    iterate resolve leaf bound.length sources (boundSoFar bound sources.length args) =
      (·, boundSoFar bound sources.length args) <$>
        walk resolve (fun tuple => leaf (bindingsOf tuple args)) args bound sources := by
  apply Loop.Follows.eq_map
  induction sources generalizing bound with
  | nil => exact .lift (leaf (bindingsOf bound args)) _
  | cons source sources ih =>
      have hinner : ∀ row, Loop.Follows (iterate resolve leaf (bound.length + 1) sources)
          ((boundSoFar bound (sources.length + 1) args).set bound.length (.element row))
          (walk resolve (fun tuple => leaf (bindingsOf tuple args)) args (bound ++ [row]) sources)
          (· = (boundSoFar bound (sources.length + 1) args).set bound.length (.element row)) := by
        intro row
        rw [set_boundSoFar]
        simpa using ih (bound ++ [row])
      rw [iterate, walk]
      apply Loop.Follows.get
      refine (Loop.Follows.run (resolve source _) _).bind fun elements _ hsame => ?_
      subst hsame
      refine (Loop.mapM_follows hinner elements.toPass _ fun _ => rfl).bind
        fun found after hafter => ?_
      apply Loop.Follows.modify
      rw [hafter, List.length_cons, set_unbound_boundSoFar]
      exact .pure found.flatten rfl

section Congruence

variable {resolve resolve' : Expr → List Binding → Run σ Elements}
  {leaf leaf' : List Row → Except Error (List α)}

theorem walk_congr (args args' : List Value) (bound : List Row) (sources : List Expr)
    (hresolve : ∀ i source, sources[i]? = some source → ∀ rows : List Row,
      rows.length = bound.length + i →
        resolve source (boundSoFar rows (sources.length - i) args) =
          resolve' source (boundSoFar rows (sources.length - i) args'))
    (hleaf : ∀ tuple, tuple.length = bound.length + sources.length → leaf tuple = leaf' tuple) :
    walk resolve leaf args bound sources = walk resolve' leaf' args' bound sources := by
  induction sources generalizing bound with
  | nil => rw [walk, walk, hleaf bound rfl]
  | cons source sources ih =>
      have hfirst : resolve source (boundSoFar bound (sources.length + 1) args) =
          resolve' source (boundSoFar bound (sources.length + 1) args') :=
        hresolve 0 source rfl bound rfl
      have hinner : ∀ row, walk resolve leaf args (bound ++ [row]) sources =
          walk resolve' leaf' args' (bound ++ [row]) sources := by
        intro row
        apply ih
        · intro i other hother rows hrows
          have hlater := hresolve (i + 1) other hother rows (by
            rw [hrows, List.length_append, List.length_singleton]
            omega)
          rwa [List.length_cons, Nat.add_sub_add_right] at hlater
        · intro tuple htuple
          apply hleaf
          rw [htuple, List.length_append, List.length_singleton, List.length_cons]
          omega
      simp only [walk, hfirst, hinner]

end Congruence

theorem mapM_map {m : Type → Type} [Monad m] [LawfulMonad m] {γ : Type} (g : β → γ) (f : α → m β)
    (xs : List α) : (xs.mapM fun x => g <$> f x) = List.map g <$> xs.mapM f := by
  induction xs with
  | nil => simp
  | cons x xs ih => simp [ih]

section Leaf

variable {g : α → β} {leaf : List Row → Except Error (List α)}
  {leaf' : List Row → Except Error (List β)}

theorem walk_map (resolve : Expr → List Binding → Run σ Elements) (args : List Value)
    (bound : List Row) (sources : List Expr)
    (hleaf : ∀ tuple, tuple.length = bound.length + sources.length →
      leaf' tuple = List.map g <$> leaf tuple) :
    walk resolve leaf' args bound sources = List.map g <$> walk resolve leaf args bound sources := by
  induction sources generalizing bound with
  | nil =>
      rw [walk, walk, hleaf bound rfl]
      rcases leaf bound with e | found <;> rfl
  | cons source sources ih =>
      have hinner : ∀ row, walk resolve leaf' args (bound ++ [row]) sources =
          List.map g <$> walk resolve leaf args (bound ++ [row]) sources := by
        intro row
        apply ih
        intro tuple htuple
        apply hleaf
        rw [htuple, List.length_append, List.length_singleton, List.length_cons]
        omega
      simp only [walk, hinner, ← map_bind, mapM_map]
      simp only [map_bind, bind_map_left, map_pure, List.map_flatten]

theorem walk_covers (resolve : Expr → List Binding → Run σ Elements) (args : List Value)
    (bound : List Row) (sources : List Expr)
    (hleaf : ∀ tuple found, leaf tuple = .ok found → leaf' tuple = .ok (found.map g)) :
    Covers (List.map g) (walk resolve leaf args bound sources)
      (walk resolve leaf' args bound sources) := by
  induction sources generalizing bound with
  | nil => exact Run.lift_covers (hleaf bound)
  | cons source sources ih =>
      refine .bind_same _ fun elements => ?_
      have hrounds := Covers.mapM (g := List.map g) (fun item : Except Error Row =>
        Covers.bind_same (liftM item : Run σ Row) fun row => ih (bound ++ [row])) elements.toPass
      refine hrounds.bind fun found => ?_
      rw [← List.map_flatten]
      exact .pure (List.map g) found.flatten

end Leaf

section Outcome

variable {P : Session σ → Prop} {resolve : Expr → List Binding → Run σ Elements}
  {candidates : Expr → List Binding → List Row} {leaf : List Row → Except Error (List α)}

/-- The tuples that a walk comes to, if the sources are resolved to the candidates. -/
def walked (candidates : Expr → List Binding → List Row) (args : List Value) (bound : List Row) :
    List Expr → List (List Row)
  | [] => [bound]
  | source :: sources =>
      (candidates source (boundSoFar bound (sources.length + 1) args)).flatMap fun row =>
        walked candidates args (bound ++ [row]) sources

theorem walk_gives (args : List Value) (bound : List Row) (sources : List Expr)
    (hresolve : ∀ source ∈ sources, ∀ bindings s, P s → ∃ elements s',
      resolve source bindings s = (.ok elements, s') ∧ P s' ∧
        elements.toPass = (candidates source bindings).map .ok) :
    Gives P (walk resolve leaf args bound sources)
      (gather leaf (walked candidates args bound sources)) := by
  induction sources generalizing bound with
  | nil =>
      rw [walked, gather_singleton]
      exact Run.lift_gives P (leaf bound)
  | cons source sources ih =>
      rw [walk, walked, gather_flatMap, gather_eq_flatten, ← bind_pure_comp]
      refine .bind_of_answers (hresolve source (by simp) _) fun elements helements => ?_
      rw [helements, List.mapM_map]
      refine (Gives.mapM (fun row => ?_) _).bind fun found => .pure found.flatten
      exact ih (bound ++ [row]) fun other hother => hresolve other (by simp [hother])

end Outcome

end IndexedQuery
