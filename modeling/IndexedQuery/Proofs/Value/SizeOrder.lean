import IndexedQuery.Operator.Application
import IndexedQuery.Proofs.Value.TotalOrder

/-!
The order of values by size alone. Every value has a weight, in which an integer counts for the float
that it is converted to, and only two integers are compared by more than their weights. Hence the
order is total, but two integers that become one float may stand in the wrong order around it.
-/

namespace IndexedQuery.Value

variable {a b c : Value}

/-- The place of a value, less what tells an integer from the float it is converted to. -/
def weight (v : Value) : Place :=
  { v.place with tie := 0, exact := 0 }

theorem compareSize_integers (m n : Int64) :
    compareSize (.int64 m) (.int64 n) = compare m.toInt n.toInt :=
  compare_eq_compare_toInt m n

theorem compare_weight_of_numbers (r r' : Int) :
    compare (⟨2, r, 0, 0, ""⟩ : Place) ⟨2, r', 0, 0, ""⟩ = compare r r' := by
  rw [Place.compare_numbers]
  exact Ordering.then_eq

theorem compareSize_of_not_integers (h : ¬ ∃ m n, a = .int64 m ∧ b = .int64 n) :
    compareSize a b = compare a.weight b.weight := by
  by_cases hkind : a.place.kind = b.place.kind
  · cases a <;> cases b <;> try (simp [place] at hkind; done)
    case null.null => rfl
    case boolean.boolean x y => cases x <;> cases y <;> rfl
    case int64.int64 m n => exact absurd ⟨m, n, rfl, rfl⟩ h
    case int64.float64 | float64.int64 | float64.float64 =>
      exact (compare_weight_of_numbers _ _).symm
    case string.string s s' => rfl
    case dateTime.dateTime m n =>
      change compare m n = (compare m.toInt n.toInt).then .eq
      rw [Ordering.then_eq, compare_eq_compare_toInt]
  · have hvalues : compareSize a b = compare a b := by
      cases a <;> cases b <;> first | rfl | exact absurd rfl hkind
    have hweights : compare a.weight b.weight = compare a.place.kind b.place.kind :=
      Place.compare_of_kind_ne hkind
    rw [hvalues, compare_of_kind_ne hkind, hweights]

instance : Std.OrientedCmp compareSize where
  eq_swap := by
    intro a b
    by_cases h : ∃ m n, a = .int64 m ∧ b = .int64 n
    · obtain ⟨m, n, rfl, rfl⟩ := h
      rw [compareSize_integers, compareSize_integers]
      exact Std.OrientedCmp.eq_swap
    · have hflipped : ¬ ∃ m n, b = .int64 m ∧ a = .int64 n := by
        rintro ⟨m, n, rfl, rfl⟩
        exact h ⟨n, m, rfl, rfl⟩
      rw [compareSize_of_not_integers h, compareSize_of_not_integers hflipped]
      exact Std.OrientedCmp.eq_swap

theorem isLE_compareSize_self (a : Value) : (compareSize a a).isLE = true := by
  have hself : compareSize a a = .eq := Std.ReflCmp.compare_self
  rw [hself]
  rfl

theorem isLE_compareSize_total (a b : Value) :
    (compareSize a b).isLE = true ∨ (compareSize b a).isLE = true := by
  have hswap : compareSize b a = (compareSize a b).swap := Std.OrientedCmp.eq_swap
  rw [hswap]
  cases compareSize a b <;> simp

theorem isLE_compare_weight (h : (compareSize a b).isLE = true) :
    (compare a.weight b.weight).isLE = true := by
  by_cases hintegers : ∃ m n, a = .int64 m ∧ b = .int64 n
  · obtain ⟨m, n, rfl, rfl⟩ := hintegers
    rw [compareSize_integers, Int.isLE_compare] at h
    have hrank := Binary64.rank_ofInt_mono h
    rw [← Int.isLE_compare, ← compare_weight_of_numbers] at hrank
    exact hrank
  · rwa [← compareSize_of_not_integers hintegers]

/-- Two integers become the same float as stands between them, and the greater one comes first. -/
inductive Blurred : Value → Value → Value → Prop where
  | intro {m n : Int64} {x : Binary64} (descending : n.toInt < m.toInt)
      (first : compare (Binary64.ofInt m.toInt) x = .eq)
      (last : compare x (Binary64.ofInt n.toInt) = .eq) :
      Blurred (.int64 m) (.float64 x) (.int64 n)

theorem Blurred.lt {m n : Int64} (h : Blurred (.int64 m) b (.int64 n)) : n.toInt < m.toInt := by
  cases h
  assumption

theorem blurred_of_descending {m n : Int64} (hab : (compareSize (.int64 m) b).isLE = true)
    (hbc : (compareSize b (.int64 n)).isLE = true) (hlt : n.toInt < m.toInt) :
    Blurred (.int64 m) b (.int64 n) := by
  cases b with
  | null => cases hab
  | boolean _ => cases hab
  | string _ => cases hbc
  | dateTime _ => cases hbc
  | int64 k =>
      rw [compareSize_integers, Int.isLE_compare] at hab hbc
      omega
  | float64 x =>
      have hrank := Binary64.rank_ofInt_mono (Int.le_of_lt hlt)
      have hm : (Binary64.ofInt m.toInt).rank ≤ x.rank := Int.isLE_compare.mp hab
      have hn : x.rank ≤ (Binary64.ofInt n.toInt).rank := Int.isLE_compare.mp hbc
      have hfirst : (Binary64.ofInt m.toInt).rank = x.rank := by omega
      have hlast : x.rank = (Binary64.ofInt n.toInt).rank := by omega
      exact .intro hlt (Int.compare_eq_eq.mpr hfirst) (Int.compare_eq_eq.mpr hlast)

/-- The order by size is transitive up to blurred integers. -/
theorem isLE_compareSize_iff (hab : (compareSize a b).isLE = true)
    (hbc : (compareSize b c).isLE = true) :
    (compareSize a c).isLE = true ↔ ¬ Blurred a b c := by
  constructor
  · rintro hac ⟨hlt, -, -⟩
    rw [compareSize_integers, Int.isLE_compare] at hac
    omega
  · intro hsharp
    by_cases hintegers : ∃ m n, a = .int64 m ∧ c = .int64 n
    · obtain ⟨m, n, rfl, rfl⟩ := hintegers
      rw [compareSize_integers, Int.isLE_compare]
      exact Int.not_lt.mp fun hlt => hsharp (blurred_of_descending hab hbc hlt)
    · rw [compareSize_of_not_integers hintegers]
      exact Std.TransCmp.isLE_trans (isLE_compare_weight hab) (isLE_compare_weight hbc)

end IndexedQuery.Value
