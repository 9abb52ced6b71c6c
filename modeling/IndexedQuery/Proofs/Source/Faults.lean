import IndexedQuery.Proofs.Source.Completeness
import IndexedQuery.Source.Fault

namespace IndexedQuery

namespace Fault

variable {f : Fault} {rows found : List Row}

theorem set_error_ne_map_ok {k : Nat} {pass : Pass} (h : k < pass.length) (e : Error)
    (found : List Row) : pass.set k (.error e) ≠ found.map .ok := by
  intro hset
  have hmem : Except.error e ∈ found.map (Except.ok : Row → Except Error Row) := by
    rw [← hset]
    exact List.mem_set h (.error e)
  obtain ⟨row, -, hrow⟩ := List.mem_map.mp hmem
  cases hrow

theorem eq_of_apply_eq_ok (h : f.apply rows = .ok (found.map .ok)) : rows = found := by
  unfold apply at h
  dsimp only at h
  split at h
  · cases h
  · rename_i k _
    have hset := Except.ok.inj h
    rcases Nat.lt_or_ge k (rows.map (Except.ok : Row → Except Error Row)).length with hlt | hge
    · exact absurd hset (set_error_ne_map_ok hlt _ found)
    · rw [List.set_eq_of_length_le hge] at hset
      exact Source.map_ok_inj hset

theorem strike_of_spent {collection : String} {faults : List Fault}
    (h : ∀ f ∈ faults, f.uses? = some 0) : strike collection faults = (none, faults) := by
  induction faults with
  | nil => rfl
  | cons f faults ih =>
      have hdue : f.isDue collection = false := by
        simp [isDue, h f (by simp)]
      simp [strike, hdue, ih fun g hg => h g (List.mem_cons_of_mem f hg)]

end Fault

namespace Collections

variable {c : Collections} {faults : List Fault}

theorem faultySource_pass (name : String) :
    c.faultySource.pass faults name =
      match c.rows name with
      | .error e => (.error e, faults)
      | .ok rows =>
          match Fault.strike name faults with
          | (some f, faults) => (f.apply rows, faults)
          | (none, faults) => (.ok (rows.map .ok), faults) :=
  rfl

theorem faultySource_discloses (c : Collections) (faults : List Fault) :
    c.faultySource.Discloses c.rows faults := by
  intro passed name found hpass
  rw [faultySource_pass] at hpass
  rcases hrows : c.rows name with e | rows
  · rw [hrows] at hpass
    cases hpass
  · rw [hrows] at hpass
    dsimp only at hpass
    split at hpass
    · rw [Fault.eq_of_apply_eq_ok hpass]
    · rw [Source.map_ok_inj (Except.ok.inj hpass)]

theorem faultySource_serves (c : Collections) (h : ∀ f ∈ faults, f.uses? = some 0) :
    c.faultySource.Serves c.rows faults := by
  have hpass : ∀ name, c.faultySource.pass faults name =
      ((c.rows name).map (·.map .ok), faults) := by
    intro name
    rw [faultySource_pass, Fault.strike_of_spent h]
    rcases c.rows name with e | rows <;> rfl
  have hafter : ∀ passed : List String, c.faultySource.after faults passed = faults := by
    intro passed
    induction passed with
    | nil => rfl
    | cons name passed ih =>
        rw [Source.after, List.foldl_cons, hpass]
        exact ih
  intro passed name
  rw [hafter, hpass]

end Collections

end IndexedQuery
