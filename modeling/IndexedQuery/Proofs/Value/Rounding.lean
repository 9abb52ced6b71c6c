import IndexedQuery.Proofs.Value.Equality

/-!
Rounding keeps the order. Within a binade the rounded quotient grows with the dividend, and a binade
ends where the next one begins, so the number nearest to an integer grows with the integer.
-/

namespace IndexedQuery.Binary64

theorem one_shiftLeft_pos (shift : Nat) : 0 < 1 <<< shift := by
  rw [Nat.one_shiftLeft]
  exact Nat.two_pow_pos shift

theorem shiftRight_eq_div (n shift : Nat) : n >>> shift = n / 1 <<< shift := by
  rw [Nat.shiftRight_eq_div_pow, Nat.one_shiftLeft]

theorem roundShift_mono {m n : Nat} (h : m ≤ n) (shift : Nat) :
    roundShift m shift ≤ roundShift n shift := by
  have hpos := one_shiftLeft_pos shift
  have hm := Nat.div_add_mod m (1 <<< shift)
  have hn := Nat.div_add_mod n (1 <<< shift)
  have hquotient : m / 1 <<< shift ≤ n / 1 <<< shift := Nat.div_le_div_right h
  simp only [roundShift, shiftRight_eq_div]
  rcases Nat.lt_or_eq_of_le hquotient with hlt | heq
  · grind
  · -- Where the quotients are the same, the remainders are ordered as the dividends are.
    have hrest : m % 1 <<< shift ≤ n % 1 <<< shift := by
      rw [heq] at hm
      omega
    grind

theorem roundShift_shiftLeft (k shift : Nat) : roundShift (k <<< shift) shift = k := by
  have hpos := one_shiftLeft_pos shift
  have hmod : k <<< shift % 1 <<< shift = 0 := by
    rw [Nat.shiftLeft_eq, Nat.one_shiftLeft]
    exact Nat.mul_mod_left k _
  simp only [roundShift, hmod, Nat.shiftLeft_shiftRight, Nat.mul_zero, if_pos hpos]

/-- How far the significand of `n` units is shifted to fit. -/
def shiftOf (n : Nat) : Nat :=
  n.log2 - 52

theorem shiftOf_mono {m n : Nat} (h : m ≤ n) : shiftOf m ≤ shiftOf n := by
  have hlog : m.log2 ≤ n.log2 := by
    rcases Nat.eq_zero_or_pos m with rfl | hm
    · simp
    · exact (Nat.le_log2 (by omega)).mpr (Nat.le_trans (Nat.log2_self_le (by omega)) h)
  unfold shiftOf
  omega

theorem roundShift_shiftOf_le (n : Nat) : roundShift n (shiftOf n) ≤ 2 * binade := by
  have hn : n ≤ (2 * binade) <<< shiftOf n :=
    calc
      n ≤ 2 ^ (n.log2 + 1) := Nat.le_of_lt Nat.lt_log2_self
      _ ≤ 2 ^ (53 + shiftOf n) := by
        apply Nat.pow_le_pow_right (by omega)
        unfold shiftOf
        omega
      _ = (2 * binade) <<< shiftOf n := by
        rw [Nat.pow_add, Nat.shiftLeft_eq]
        rfl
  have hround := roundShift_mono hn (shiftOf n)
  rwa [roundShift_shiftLeft] at hround

theorem binade_le_roundShift {n : Nat} (h : 0 < shiftOf n) :
    binade ≤ roundShift n (shiftOf n) := by
  have hn : binade <<< shiftOf n ≤ n :=
    calc
      binade <<< shiftOf n = 2 ^ (52 + shiftOf n) := by
        rw [Nat.pow_add, Nat.shiftLeft_eq]
        rfl
      _ = 2 ^ n.log2 := by
        congr 1
        unfold shiftOf at h ⊢
        omega
      _ ≤ n := by
        apply Nat.log2_self_le
        rintro rfl
        exact absurd h (by decide)
  have hround := roundShift_mono hn (shiftOf n)
  rwa [roundShift_shiftLeft] at hround

theorem codeOfUnits_mono {m n : Nat} (h : m ≤ n) : codeOfUnits m ≤ codeOfUnits n := by
  have hcodes : shiftOf m * binade + roundShift m (shiftOf m) ≤
      shiftOf n * binade + roundShift n (shiftOf n) := by
    rcases Nat.lt_or_eq_of_le (shiftOf_mono h) with hlt | heq
    · -- The codes of `m` end where the binade of `n` begins, or before.
      have hm := roundShift_shiftOf_le m
      have hn := binade_le_roundShift (Nat.zero_lt_of_lt hlt)
      have hbinades : (shiftOf m + 1) * binade ≤ shiftOf n * binade :=
        Nat.mul_le_mul_right _ hlt
      rw [Nat.add_mul, Nat.one_mul] at hbinades
      omega
    · rw [heq]
      exact Nat.add_le_add_left (roundShift_mono h _) _
  change min infinityCode (shiftOf m * binade + roundShift m (shiftOf m)) ≤
    min infinityCode (shiftOf n * binade + roundShift n (shiftOf n))
  omega

theorem codeOfUnits_le (n : Nat) : codeOfUnits n ≤ infinityCode :=
  Nat.min_le_left ..

section OfCode

variable {code : Nat} (h : code ≤ infinityCode) (negative : Bool)

include h

theorem code_ofCode : (ofCode negative code).code = code := by
  have hlt : code < signPlace := Nat.lt_of_le_of_lt h (by decide)
  simp only [Binary64.code, ofCode, UInt64.toNat_ofNat']
  cases negative <;> simp only [signPlace] at hlt ⊢ <;> simp <;> omega

theorem isNegative_ofCode : (ofCode negative code).isNegative = negative := by
  have hlt : code < signPlace := Nat.lt_of_le_of_lt h (by decide)
  simp only [isNegative, ofCode, UInt64.toNat_ofNat']
  cases negative <;> simp only [signPlace] at hlt ⊢ <;> simp <;> omega

theorem isNaN_ofCode : (ofCode negative code).isNaN = false := by
  rw [isNaN, code_ofCode h]
  simpa using h

theorem rank_ofCode :
    (ofCode negative code).rank = if negative then -(code : Int) else code := by
  simp [rank, isNaN_ofCode h, isNegative_ofCode h, code_ofCode h]

end OfCode

theorem rank_ofInt (n : Int) :
    (ofInt n).rank =
      if n < 0 then -(codeOfUnits (n.natAbs * unitsPerOne) : Int)
      else codeOfUnits (n.natAbs * unitsPerOne) := by
  rw [ofInt, ofUnits, rank_ofCode (codeOfUnits_le _)]
  simp only [decide_eq_true_eq]

/-- An integer never becomes a smaller number than a lesser one does. -/
theorem rank_ofInt_mono {m n : Int} (h : m ≤ n) : (ofInt m).rank ≤ (ofInt n).rank := by
  have hcodes : ∀ a b : Nat, a ≤ b →
      codeOfUnits (a * unitsPerOne) ≤ codeOfUnits (b * unitsPerOne) :=
    fun a b hab => codeOfUnits_mono (Nat.mul_le_mul_right _ hab)
  rw [rank_ofInt, rank_ofInt]
  split
  · split
    · have := hcodes n.natAbs m.natAbs (by omega)
      omega
    · omega
  · rw [if_neg (by omega)]
    have := hcodes m.natAbs n.natAbs (by omega)
    omega

end IndexedQuery.Binary64
