import IndexedQuery.Proofs.Evaluator.Traps

namespace IndexedQuery.Arithmetic

/-- The word that stands for the number, or an overflow if no word does. -/
inductive Settles (op : Arithmetic) (exact : Int) : Outcome → Prop where
  | result {word : Int64} (toInt_eq : word.toInt = exact) : Settles op exact (.ok (.int64 word))
  | overflow (unfit : ¬ Fits exact) : Settles op exact (.error (.overflow (.arithmetic op)))

/-- A quotient and a remainder that make up the dividend, unless the divisor is zero or the quotient
alone is too large. The remainder is smaller than the divisor and goes in the direction of the
dividend. -/
inductive Divides (a b : Int64) : Outcome → Outcome → Prop where
  | byZero (zero : b = 0) : Divides a b (.error .divisionByZero) (.error .divisionByZero)
  | overflow (least : a = Int64.minValue) (negated : b = -1) :
      Divides a b (.error (.overflow (.arithmetic .div))) (.error (.overflow (.arithmetic .mod)))
  | exact {q r : Int64} (nonzero : b ≠ 0) (fits : ¬ (a = Int64.minValue ∧ b = -1))
      (whole : a.toInt = q.toInt * b.toInt + r.toInt) (small : r.toInt.natAbs < b.toInt.natAbs)
      (sign : r = 0 ∨ r.toInt.sign = a.toInt.sign) :
      Divides a b (.ok (.int64 q)) (.ok (.int64 r))

section Integers

variable {op : Arithmetic} {a b : Int64} {exact : Int}

theorem toInt_ofInt_of_fits (h : Fits exact) : (Int64.ofInt exact).toInt = exact := by
  rw [Int64.toInt_ofInt, bmod_of_fits h]

theorem settles_bounded (op : Arithmetic) (exact : Int) : op.Settles exact (op.bounded exact) := by
  by_cases h : Fits exact
  · rw [bounded_of_fits h]
    exact .result (toInt_ofInt_of_fits h)
  · rw [bounded_of_not_fits h]
    exact .overflow h

/-- The least integer has no negative among the words, and no other quotient is too large. -/
theorem fits_tdiv_iff : Fits (a.toInt.tdiv b.toInt) ↔ ¬ (a = Int64.minValue ∧ b = -1) := by
  constructor
  · rintro h ⟨rfl, rfl⟩
    exact absurd h (by decide)
  · intro h
    by_cases ha : a = Int64.minValue
    · rw [← Int64.toInt_div_of_ne_right a b fun hb => h ⟨ha, hb⟩]
      exact fits_toInt _
    · rw [← Int64.toInt_div_of_ne_left a b ha]
      exact fits_toInt _

theorem onIntegers_div_of_fits (hb : b ≠ 0) (h : Fits (a.toInt.tdiv b.toInt)) :
    div.onIntegers a.toInt b.toInt = .ok (.int64 (.ofInt (a.toInt.tdiv b.toInt))) := by
  have hzero : b.toInt ≠ 0 := mt (Int64.toInt_inj (y := 0)).mp hb
  rw [onIntegers, if_neg hzero, bounded_of_fits h]

theorem onIntegers_mod_of_fits (hb : b ≠ 0) (h : Fits (a.toInt.tdiv b.toInt)) :
    mod.onIntegers a.toInt b.toInt = .ok (.int64 (.ofInt (a.toInt.tmod b.toInt))) := by
  have hzero : b.toInt ≠ 0 := mt (Int64.toInt_inj (y := 0)).mp hb
  rw [onIntegers, if_neg hzero, bounded_of_fits h, bounded_of_fits (fits_tmod a b)]
  rfl

theorem divides_onIntegers (a b : Int64) :
    Divides a b (div.onIntegers a.toInt b.toInt) (mod.onIntegers a.toInt b.toInt) := by
  by_cases hb : b = 0
  · subst hb
    exact .byZero rfl
  by_cases hleast : a = Int64.minValue ∧ b = -1
  · obtain ⟨rfl, rfl⟩ := hleast
    exact .overflow rfl rfl
  have hquotient := fits_tdiv_iff.mpr hleast
  have hq := toInt_ofInt_of_fits hquotient
  have hr := toInt_ofInt_of_fits (fits_tmod a b)
  rw [onIntegers_div_of_fits hb hquotient, onIntegers_mod_of_fits hb hquotient]
  apply Divides.exact hb hleast
  · rw [hq, hr, Int.tdiv_mul_add_tmod]
  · rw [hr, Int.natAbs_tmod]
    exact Nat.mod_lt _ (Int.natAbs_pos.mpr (mt (Int64.toInt_inj (y := 0)).mp hb))
  · rw [hr, Int.sign_tmod]
    split
    · rename_i hdvd
      rw [Int.tmod_eq_zero_of_dvd hdvd]
      exact .inl rfl
    · exact .inr rfl

end Integers

section Operands

variable {op : Arithmetic} {v w : Value}

theorem apply_of_null (h : v.isNull = true ∨ w.isNull = true) : op.apply v w = .ok .null := by
  cases v <;> cases w <;> first | rfl | simp [Value.isNull] at h

theorem apply_strings (op : Arithmetic) (s t : String) :
    op.apply (.string s) (.string t) =
      if op = .add then .ok (.string (s ++ t))
      else .error (.invalidOperand (.arithmetic op) (.string s)) :=
  rfl

theorem apply_of_unfit (hv : v.isNull = false) (hw : w.isNull = false)
    (hunfit : v.isNumeric = false ∨ w.isNumeric = false)
    (hmixed : ∀ s t, v = .string s → w ≠ .string t) :
    op.apply v w =
      .error (.invalidOperand (.arithmetic op) (if v.isNumeric then w else v)) := by
  cases v <;> cases w
  case string.string s t => exact absurd rfl (hmixed s t rfl)
  all_goals first
    | rfl
    | exact absurd hv (by decide)
    | exact absurd hw (by decide)
    | exact absurd hunfit (by simp [Value.isNumeric, Value.dataType?, DataType.isNumeric])

end Operands

/-- Sums, differences and products of integers are exact or overflow, and quotients and remainders
divide. A null beside anything gives null, strings are joined by addition and by nothing else, and
of the remaining operands that are not both numbers the left one is to blame unless it is a
number. -/
theorem apply_exact_or_refused :
    (∀ a b : Int64,
      add.Settles (a.toInt + b.toInt) (add.apply (.int64 a) (.int64 b)) ∧
      sub.Settles (a.toInt - b.toInt) (sub.apply (.int64 a) (.int64 b)) ∧
      mul.Settles (a.toInt * b.toInt) (mul.apply (.int64 a) (.int64 b)) ∧
      Divides a b (div.apply (.int64 a) (.int64 b)) (mod.apply (.int64 a) (.int64 b))) ∧
    ∀ (op : Arithmetic) (v w : Value),
      (v.isNull = true ∨ w.isNull = true → op.apply v w = .ok .null) ∧
      (∀ s t, v = .string s → w = .string t → op = .add → op.apply v w = .ok (.string (s ++ t))) ∧
      (v.isNull = false → w.isNull = false → v.isNumeric = false ∨ w.isNumeric = false →
        (op = .add → ∀ s t, v = .string s → w ≠ .string t) →
          op.apply v w =
            .error (.invalidOperand (.arithmetic op) (if v.isNumeric then w else v))) := by
  refine ⟨fun a b => ⟨add.settles_bounded _, sub.settles_bounded _, mul.settles_bounded _,
    divides_onIntegers a b⟩, fun op v w => ⟨apply_of_null, ?_, ?_⟩⟩
  · rintro s t rfl rfl hadd
    rw [apply_strings, if_pos hadd]
  · intro hv hw hunfit hjoin
    by_cases hstrings : ∃ s t, v = .string s ∧ w = .string t
    · obtain ⟨s, t, rfl, rfl⟩ := hstrings
      rw [apply_strings, if_neg fun hadd => hjoin hadd s t rfl rfl]
      rfl
    · exact apply_of_unfit hv hw hunfit fun s t hs ht => hstrings ⟨s, t, hs, ht⟩

theorem apply_atTheEnds :
    let least : Value := .int64 Int64.minValue
    add.Settles (Int64.maxValue.toInt + Int64.toInt 1) (.error (.overflow (.arithmetic .add))) ∧
      Divides Int64.minValue (-1) (.error (.overflow (.arithmetic .div)))
        (.error (.overflow (.arithmetic .mod))) ∧
      Divides (-7) 2 (.ok (.int64 (-3))) (.ok (.int64 (-1))) ∧
      Divides Int64.minValue 0 (.error .divisionByZero) (.error .divisionByZero) ∧
      div.apply .null (.int64 0) = .ok .null ∧
      add.apply (.string "ab") (.string "cd") = .ok (.string "abcd") ∧
      sub.apply (.string "ab") (.string "cd") =
        .error (.invalidOperand (.arithmetic .sub) (.string "ab")) ∧
      mod.apply least (.boolean true) =
        .error (.invalidOperand (.arithmetic .mod) (.boolean true)) ∧
      mod.apply (.dateTime 0) (.boolean true) =
        .error (.invalidOperand (.arithmetic .mod) (.dateTime 0)) := by
  intro least
  obtain ⟨hintegers, hothers⟩ := apply_exact_or_refused
  exact ⟨(hintegers Int64.maxValue 1).1, (hintegers Int64.minValue (-1)).2.2.2,
    (hintegers (-7) 2).2.2.2, (hintegers Int64.minValue 0).2.2.2,
    (hothers div .null (.int64 0)).1 (.inl rfl),
    (hothers add (.string "ab") (.string "cd")).2.1 _ _ rfl rfl rfl,
    (hothers sub (.string "ab") (.string "cd")).2.2 rfl rfl (.inl rfl) nofun,
    (hothers mod least (.boolean true)).2.2 rfl rfl (.inr rfl) nofun,
    (hothers mod (.dateTime 0) (.boolean true)).2.2 rfl rfl (.inl rfl) nofun⟩

end IndexedQuery.Arithmetic
