import IndexedQuery.Proofs.Value.Rounding

/-!
The order of values is total. Integers are compared with each other exactly and with floats after a
conversion that loses digits. That this makes no cycle is seen by giving every value a place, whose
parts the order goes by one after the other.
-/

namespace IndexedQuery

theorem compare_eq_compare_toInt (m n : Int64) : compare m n = compare m.toInt n.toInt := by
  simp only [compare, compareOfLessAndEq, Int64.lt_iff_toInt_lt, Int64.toInt_inj]

/-- Where a value stands in the order. -/
structure Place where
  kind : Nat
  /-- The size of a number, an integer standing where it is converted to. -/
  size : Int
  /-- Which of a converted integer and a float of its size comes first. -/
  tie : Nat
  /-- What the conversion of an integer loses. -/
  exact : Int
  letters : String

namespace Place

/-- The parts decide from left to right. -/
instance : Ord Place where
  compare :=
    compareLex (compareOn kind) <| compareLex (compareOn size) <|
      compareLex (compareOn tie) <| compareLex (compareOn exact) (compareOn letters)

instance : Std.TransOrd Place :=
  inferInstanceAs <| Std.TransCmp <|
    compareLex (compareOn kind) <| compareLex (compareOn size) <|
      compareLex (compareOn tie) <| compareLex (compareOn exact) (compareOn letters)

theorem compare_of_kind_ne {p q : Place} (h : p.kind ≠ q.kind) :
    compare p q = compare p.kind q.kind := by
  have hne : compare p.kind q.kind ≠ .eq := fun heq => h (Std.compare_eq_iff_eq.mp heq)
  change (compare p.kind q.kind).then _ = _
  revert hne
  cases compare p.kind q.kind <;> simp

theorem compare_numbers (r r' i i' : Int) (t t' : Nat) :
    compare (⟨2, r, t, i, ""⟩ : Place) ⟨2, r', t', i', ""⟩ =
      (compare r r').then ((compare t t').then (compare i i')) := by
  change (compare 2 2).then ((compare r r').then ((compare t t').then ((compare i i').then .eq))) = _
  rw [Ordering.then_eq]
  rfl

end Place

theorem compare_then_compare {f : Int → Int} (hf : ∀ i j, i ≤ j → f i ≤ f j) (i j : Int) :
    (compare (f i) (f j)).then (compare i j) = compare i j := by
  rcases h : compare (f i) (f j) with _ | _ | _
  · have hlt : f i < f j := Int.compare_eq_lt.mp h
    have hij : i < j := Int.not_le.mp fun hle => Int.not_le.mpr hlt (hf j i hle)
    exact (Int.compare_eq_lt.mpr hij).symm
  · rfl
  · have hlt : f j < f i := Int.compare_eq_gt.mp h
    have hij : j < i := Int.not_le.mp fun hle => Int.not_le.mpr hlt (hf i j hle)
    exact (Int.compare_eq_gt.mpr hij).symm

namespace Value

def place : Value → Place
  | .null => ⟨0, 0, 0, 0, ""⟩
  | .boolean b => ⟨1, b.toNat, 0, 0, ""⟩
  | .int64 n => ⟨2, (Binary64.ofInt n.toInt).rank, 0, n.toInt, ""⟩
  | .float64 x => ⟨2, x.rank, 1, 0, ""⟩
  | .string s => ⟨3, 0, 0, 0, s⟩
  | .dateTime ms => ⟨4, ms.toInt, 0, 0, ""⟩

theorem compare_of_kind_ne {a b : Value} (h : a.place.kind ≠ b.place.kind) :
    compare a b = compare a.place.kind b.place.kind := by
  cases a <;> cases b <;> first | rfl | exact absurd rfl h

theorem compare_eq_compare_place (a b : Value) : compare a b = compare a.place b.place := by
  by_cases h : a.place.kind = b.place.kind
  · cases a <;> cases b <;> try (simp [place] at h; done)
    case null.null => rfl
    case boolean.boolean x y => cases x <;> cases y <;> rfl
    case int64.int64 m n =>
      -- Both are converted, but where that makes them equal the exact integers decide.
      rw [place, place, Place.compare_numbers]
      change compare m n = (compare _ _).then (compare m.toInt n.toInt)
      rw [compare_then_compare (f := fun i => (Binary64.ofInt i).rank)
        fun i j => Binary64.rank_ofInt_mono, compare_eq_compare_toInt]
    case int64.float64 m x =>
      rw [place, place, Place.compare_numbers]
      rfl
    case float64.int64 x n =>
      rw [place, place, Place.compare_numbers]
      rfl
    case float64.float64 x y =>
      rw [place, place, Place.compare_numbers]
      exact Ordering.then_eq.symm
    case string.string s s' => rfl
    case dateTime.dateTime m n =>
      change compare m n = (compare m.toInt n.toInt).then .eq
      rw [Ordering.then_eq, compare_eq_compare_toInt]
  · rw [compare_of_kind_ne h, Place.compare_of_kind_ne h]

instance : Std.TransOrd Value where
  eq_swap := by
    intro a b
    rw [compare_eq_compare_place, compare_eq_compare_place]
    exact Std.OrientedCmp.eq_swap
  isLE_trans := by
    intro a b c hab hbc
    rw [compare_eq_compare_place] at hab hbc ⊢
    exact Std.TransCmp.isLE_trans hab hbc

instance : Std.LawfulBEqOrd Value where
  compare_eq_iff_beq := beq_iff_eq.symm

/-- Comparing the other way round turns the outcome round, what compares equal is equal and is the
same to every comparison, and there are no cycles. -/
theorem compare_total (a b c : Value) :
    compare b a = (compare a b).swap ∧
    (compare a b = .eq ↔ (a == b) = true) ∧
    ((a == a) = true ∧ ((a == b) = true → (b == a) = true) ∧
      ((a == b) = true → (b == c) = true → (a == c) = true)) ∧
    ((a == b) = true → compare a c = compare b c ∧ compare c a = compare c b) ∧
    (compare a b = .lt → compare b c = .lt → compare a c = .lt) := by
  refine ⟨Std.OrientedCmp.eq_swap, Std.LawfulBEqCmp.compare_eq_iff_beq, ?_, ?_,
    Std.TransCmp.lt_trans⟩
  · exact ⟨BEq.rfl, BEq.symm, BEq.trans⟩
  · intro heq
    have hcompare : compare a b = .eq := Std.LawfulBEqCmp.compare_eq_iff_beq.mpr heq
    exact ⟨Std.TransCmp.congr_left hcompare, Std.TransCmp.congr_right hcompare⟩

/-- The first number past all exactly converted ones becomes the number before it, and still comes
before that as a float. -/
theorem compare_past_exact :
    let past : Value := .int64 9007199254740993
    let before : Value := .float64 (.ofInt 9007199254740992)
    let next : Value := .int64 9007199254740994
    compare past before = .lt ∧ compare before next = .lt ∧ compare past next = .lt ∧
      (Value.float64 (.ofCode true 0) == .float64 .zero) = true ∧
      compare (.float64 (.ofCode true 0)) past = compare (.float64 .zero) past := by
  intro past before next
  have hfirst : compare past before = .lt := by decide +kernel
  have hsecond : compare before next = .lt := by decide +kernel
  have hzeros : (Value.float64 (.ofCode true 0) == .float64 .zero) = true := by decide +kernel
  exact ⟨hfirst, hsecond, (compare_total past before next).2.2.2.2 hfirst hsecond, hzeros,
    ((compare_total _ _ past).2.2.2.1 hzeros).1⟩

end Value

end IndexedQuery
