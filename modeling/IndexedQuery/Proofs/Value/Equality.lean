import IndexedQuery.Value.Digest
import IndexedQuery.Value.Order

namespace IndexedQuery

namespace Binary64

theorem code_lt_signPlace (x : Binary64) : x.code < signPlace :=
  Nat.mod_lt _ (by decide)

theorem eq_of_code_eq {x y : Binary64} (hsign : x.isNegative = y.isNegative)
    (hcode : x.code = y.code) : x = y := by
  rcases x with ⟨x⟩
  rcases y with ⟨y⟩
  simp only [isNegative, code, decide_eq_decide] at hsign hcode
  have hx : x.toNat < 2 ^ 64 := x.toNat_lt
  have hy : y.toNat < 2 ^ 64 := y.toNat_lt
  have : x.toNat = y.toNat := by
    simp only [signPlace] at hsign hcode
    omega
  rw [UInt64.toNat_inj.mp this]

theorem rank_eq_signPlace_iff {x : Binary64} : x.rank = signPlace ↔ x.isNaN = true := by
  have hlt := x.code_lt_signPlace
  unfold rank
  by_cases hnan : x.isNaN = true
  · simp [hnan]
  · simp only [hnan, Bool.false_eq_true, if_false, iff_false]
    split <;> omega

theorem rank_eq_zero_iff {x : Binary64} : x.rank = 0 ↔ x.isZero = true := by
  have hpos : signPlace ≠ 0 := by decide
  simp only [isZero, beq_iff_eq]
  by_cases hnan : x.isNaN = true
  · have hcode : x.code ≠ 0 := by
      have : infinityCode < x.code := by simpa [isNaN] using hnan
      omega
    simp [rank, hnan, hpos, hcode]
  · simp only [rank, hnan, Bool.false_eq_true, if_false]
    split <;> omega

@[simp] theorem rank_nan : nan.rank = signPlace := by
  decide

@[simp] theorem rank_zero : zero.rank = 0 := by
  decide

theorem rank_canonical (x : Binary64) : x.canonical.rank = x.rank := by
  unfold canonical
  split
  · rename_i hnan
    rw [rank_nan, rank_eq_signPlace_iff.mpr hnan]
  · split
    · rename_i hzero
      rw [rank_zero, rank_eq_zero_iff.mpr hzero]
    · rfl

theorem canonical_eq_of_rank_eq {x y : Binary64} (h : x.rank = y.rank) :
    x.canonical = y.canonical := by
  have hnan : x.isNaN = y.isNaN := by
    rw [Bool.eq_iff_iff, ← rank_eq_signPlace_iff, ← rank_eq_signPlace_iff, h]
  have hzero : x.isZero = y.isZero := by
    rw [Bool.eq_iff_iff, ← rank_eq_zero_iff, ← rank_eq_zero_iff, h]
  unfold canonical
  rw [hnan, hzero]
  split
  · rfl
  · split
    · rfl
    · rename_i hyNaN hyZero
      have hx : x.isNaN = false := by simp_all
      have hy : y.isNaN = false := by simp_all
      have hcode : y.code ≠ 0 := by simpa [isZero] using hyZero
      simp only [rank, hx, hy, Bool.false_eq_true, if_false] at h
      apply eq_of_code_eq
      · split at h <;> split at h
        · rename_i hxSign hySign
          rw [hxSign, hySign]
        · omega
        · omega
        · rename_i hxSign hySign
          rw [Bool.eq_false_iff.mpr hxSign, Bool.eq_false_iff.mpr hySign]
      · split at h <;> split at h <;> omega

theorem canonical_eq_iff {x y : Binary64} : x.canonical = y.canonical ↔ x.rank = y.rank := by
  constructor
  · intro h
    rw [← rank_canonical x, ← rank_canonical y, h]
  · exact canonical_eq_of_rank_eq

end Binary64

namespace Value

theorem digest_float64_eq_iff {x y : Binary64} :
    (float64 x).digest = (float64 y).digest ↔ x.rank = y.rank := by
  rw [← Binary64.canonical_eq_iff]
  simp only [digest, List.cons.injEq, Datum.word.injEq, true_and, and_true]
  exact ⟨congrArg Binary64.mk, congrArg Binary64.bits⟩

theorem beq_iff_digest_eq {a b : Value} : (a == b) = true ↔ a.digest = b.digest := by
  change (Value.compare a b == .eq) = true ↔ _
  rw [beq_iff_eq]
  cases a <;> cases b <;> try simp [Value.compare, digest, typeRank] <;> done
  case float64.float64 x y =>
    change Ord.compare x.rank y.rank = .eq ↔ _
    rw [Std.compare_eq_iff_eq, digest_float64_eq_iff]

instance : EquivBEq Value where
  rfl := beq_iff_digest_eq.mpr rfl
  symm h := beq_iff_digest_eq.mpr (beq_iff_digest_eq.mp h).symm
  trans h h' := beq_iff_digest_eq.mpr ((beq_iff_digest_eq.mp h).trans (beq_iff_digest_eq.mp h'))

end Value

end IndexedQuery
