import IndexedQuery.Proofs.Context.Pinning
import IndexedQuery.Proofs.Runner.Loop

namespace IndexedQuery

variable {α β : Type}

theorem agreeOutside_boundSoFar (bound rest : List Row) (args : List Value) :
    AgreeOutside bound.length (bound.length + rest.length) (boundSoFar bound rest.length args)
      (bindingsOf (bound ++ rest) args) := by
  intro i hi
  rw [bindingsOf, boundSoFar, List.map_append, List.append_assoc]
  simp only [List.getD_eq_getElem?_getD]
  rcases hi with hi | hi
  · rw [List.getElem?_append_left (by simpa using hi),
      List.getElem?_append_left (by simpa using hi)]
  · have hbound : (bound.map Binding.element).length ≤ i := by
      rw [List.length_map]
      omega
    rw [List.getElem?_append_right hbound, List.getElem?_append_right hbound,
      List.getElem?_append_right (by simp; omega), List.getElem?_append_right (by simp; omega)]
    simp

theorem length_of_mem_tuples {rows : List (List Row)} {tuple : List Row}
    (h : tuple ∈ tuples rows) : tuple.length = rows.length := by
  induction rows generalizing tuple with
  | nil =>
      rw [List.mem_singleton.mp h]
      rfl
  | cons first rows ih =>
      obtain ⟨row, -, hmem⟩ := List.mem_flatMap.mp h
      obtain ⟨rest, hrest, rfl⟩ := List.mem_map.mp hmem
      rw [List.length_cons, ih hrest, List.length_cons]

theorem flatMap_filter_eq {p : β → Bool} {g h : β → List α}
    (hkept : ∀ x, p x = true → g x = h x) (hleft : ∀ x, p x = false → h x = []) (xs : List β) :
    (xs.filter p).flatMap g = xs.flatMap h := by
  induction xs with
  | nil => rfl
  | cons x xs ih =>
      rw [List.flatMap_cons]
      rcases hp : p x with _ | _
      · rw [List.filter_cons_of_neg (by simp [hp]), ih, hleft x hp, List.nil_append]
      · rw [List.filter_cons_of_pos hp, List.flatMap_cons, ih, hkept x hp]

theorem filter_tuples_cons (p : List Row → Bool) (first : List Row) (rows : List (List Row)) :
    (tuples (first :: rows)).filter p =
      first.flatMap fun row =>
        ((tuples rows).filter fun rest => p (row :: rest)).map (row :: ·) := by
  rw [tuples, List.filter_flatMap]
  simp only [List.filter_map]
  rfl

section Filter

variable (admits : Expr → List Binding → Row → Bool) (rowsAt : Expr → List Row)

/-- Whether each row is admitted at its position, given the whole tuple. -/
def admitsAll (sources : List Expr) (bindings : List Binding) (tuple : List Row) : Bool :=
  (sources.zip tuple).all fun entry => admits entry.1 bindings entry.2

/-- A walk over the admitted rows only comes to the tuples kept. What is admitted must not depend on
the free sources, so that it is known in time. -/
theorem walked_eq_filter (sources : List Expr) (bound : List Row) (args : List Value)
    (hstable : ∀ i source, sources[i]? = some source → ∀ bindings bindings',
      AgreeOutside (bound.length + i) (bound.length + sources.length) bindings bindings' →
        admits source bindings = admits source bindings') :
    walked (fun source bindings => (rowsAt source).filter (admits source bindings)) args bound
        sources =
      ((tuples (sources.map rowsAt)).filter fun rest =>
        admitsAll admits sources (bindingsOf (bound ++ rest) args) rest).map (bound ++ ·) := by
  induction sources generalizing bound with
  | nil => simp [walked, tuples, admitsAll]
  | cons source sources ih =>
      have hinner : ∀ row : Row,
          walked (fun source bindings => (rowsAt source).filter (admits source bindings)) args
              (bound ++ [row]) sources =
            ((tuples (sources.map rowsAt)).filter fun rest =>
              admitsAll admits sources (bindingsOf (bound ++ row :: rest) args) rest).map
                fun rest => bound ++ row :: rest := by
        intro row
        have h := ih (bound ++ [row]) (by
          intro i other hother bindings bindings' hagree
          apply hstable (i + 1) other hother
          rw [List.length_append, List.length_singleton] at hagree
          rwa [List.length_cons, Nat.add_comm i, ← Nat.add_assoc, Nat.add_comm sources.length,
            ← Nat.add_assoc])
        simpa using h
      -- The whole tuple and the rows bound so far lead to the same decision about this source.
      have hsame : ∀ (row : Row) (rest : List Row), rest ∈ tuples (sources.map rowsAt) →
          admits source (bindingsOf (bound ++ row :: rest) args) =
            admits source (boundSoFar bound (sources.length + 1) args) := by
        intro row rest hrest
        have hlength : (row :: rest).length = sources.length + 1 := by
          rw [List.length_cons, length_of_mem_tuples hrest, List.length_map]
        have hagree := agreeOutside_boundSoFar bound (row :: rest) args
        rw [hlength] at hagree
        exact (hstable 0 source rfl _ _ hagree).symm
      rw [walked, List.map_cons, filter_tuples_cons, List.map_flatMap]
      apply flatMap_filter_eq
      · intro row hrow
        rw [hinner, List.map_map]
        congr 1
        apply List.filter_congr
        intro rest hrest
        simp [admitsAll, hsame row rest hrest, hrow]
      · intro row hrow
        rw [List.map_eq_nil_iff, List.map_eq_nil_iff, List.filter_eq_nil_iff]
        intro rest hrest
        simp [admitsAll, hsame row rest hrest, hrow]

end Filter

end IndexedQuery
