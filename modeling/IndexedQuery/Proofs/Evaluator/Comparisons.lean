import IndexedQuery.Proofs.Value.SizeOrder

/-!
The comparison operators beside the order of values. Of an integer and a float of one size the order
puts the integer first, while the operators let them tie. Apart from such pairs and from null, which
the operators do not order at all, they say what the order says.
-/

namespace IndexedQuery

namespace Value

variable {a b c : Value}

/-- An integer beside a float of the size that it is converted to. -/
inductive Tied : Value → Value → Prop where
  | integerFirst {n : Int64} {x : Binary64} (same : compare (Binary64.ofInt n.toInt) x = .eq) :
      Tied (.int64 n) (.float64 x)
  | floatFirst {x : Binary64} {n : Int64} (same : compare x (Binary64.ofInt n.toInt) = .eq) :
      Tied (.float64 x) (.int64 n)

theorem compare_eq_compareSize_then (a b : Value) :
    compare a b = (compareSize a b).then (compare a.place.tie b.place.tie) := by
  cases a <;> cases b <;> first | rfl | exact Ordering.then_eq.symm

theorem compare_eq_compareSize (h : compareSize a b ≠ .eq) : compare a b = compareSize a b := by
  rw [compare_eq_compareSize_then]
  revert h
  cases compareSize a b <;> simp

theorem tied_iff : a.Tied b ↔ compareSize a b = .eq ∧ compare a b ≠ .eq := by
  constructor
  · rintro (⟨same⟩ | ⟨same⟩)
    · refine ⟨same, ?_⟩
      change (compare _ _).then .lt ≠ .eq
      simp
    · refine ⟨same, ?_⟩
      change (compare _ _).then .gt ≠ .eq
      simp
  · rintro ⟨hsize, hne⟩
    cases a <;> cases b
    case int64.float64 => exact .integerFirst hsize
    case float64.int64 => exact .floatFirst hsize
    all_goals exact absurd hsize hne

theorem compareSize_eq_compare_iff : compareSize a b = compare a b ↔ ¬ a.Tied b := by
  rw [tied_iff]
  constructor
  · rintro heq ⟨hsize, hne⟩
    exact hne (heq ▸ hsize)
  · intro hsharp
    by_cases hsize : compareSize a b = .eq
    · have heq : compare a b = .eq := Decidable.of_not_not fun hne => hsharp ⟨hsize, hne⟩
      rw [hsize, heq]
    · exact (compare_eq_compareSize hsize).symm

theorem compareSize_eq_of_compare_eq (h : compare a b = .eq) : compareSize a b = .eq := by
  rw [compare_eq_compareSize_then, Ordering.then_eq_eq] at h
  exact h.1

theorem compareSize_lt_trans (hab : compareSize a b = .lt) (hbc : compareSize b c = .lt) :
    compareSize a c = .lt := by
  refine Decidable.byContradiction fun hac => ?_
  -- Then `c` comes before `b`, which it does not, or `a` is a float that blurs the two.
  have hca : (compareSize c a).isLE = true := by
    have hswap : compareSize c a = (compareSize a c).swap := Std.OrientedCmp.eq_swap
    rw [hswap]
    revert hac
    cases compareSize a c <;> simp
  have hcb : compareSize c b = .gt := by
    have hswap : compareSize c b = (compareSize b c).swap := Std.OrientedCmp.eq_swap
    rw [hswap, hbc]
    rfl
  have hsharp : ¬ Blurred c a b := by
    rintro ⟨-, -, hlast⟩
    cases hab.symm.trans hlast
  have hle := (isLE_compareSize_iff hca (by rw [hab]; rfl)).mpr hsharp
  rw [hcb] at hle
  cases hle

end Value

namespace Comparison

/-- The operators that ask which of two values comes first. -/
def isOrdering : Comparison → Bool
  | .lt | .le | .gt | .ge => true
  | .eq | .ne => false

/-- What an operator says of two values that compare as given. -/
def reads (op : Comparison) (o : Ordering) : Bool :=
  match op with
  | .eq => o.isEq
  | .ne => o.isNe
  | .lt => o.isLT
  | .le => o.isLE
  | .gt => o.isGT
  | .ge => o.isGE

variable {a b c : Value} {op : Comparison}

theorem holds_of_null (h : a.isNull = true ∨ b.isNull = true) (hop : op.isOrdering = true) :
    op.holds a b = false := by
  have hnull : (a.isNull || b.isNull) = true := Bool.or_eq_true_iff.mpr h
  cases op with
  | lt | le | gt | ge => simp [holds, hnull]
  | eq | ne => cases hop

theorem holds_eq_reads_size (ha : a.isNull = false) (hb : b.isNull = false)
    (hop : op.isOrdering = true) : op.holds a b = op.reads (a.compareSize b) := by
  cases op with
  | lt | le | gt | ge => simp [holds, reads, ha, hb]
  | eq | ne => cases hop

theorem eq_holds_iff : Comparison.eq.holds a b = true ↔ compare a b = .eq :=
  Std.LawfulBEqCmp.compare_eq_iff_beq.symm

theorem holds_eq_reads (hop : op.isOrdering = false) : op.holds a b = op.reads (compare a b) := by
  have heq : (a == b) = (compare a b).isEq := by
    rw [Bool.eq_iff_iff, Ordering.isEq_iff_eq_eq]
    exact eq_holds_iff
  cases op with
  | eq => exact heq
  | ne =>
      rw [holds, bne, heq, reads]
      cases compare a b <;> rfl
  | lt | le | gt | ge => cases hop

theorem not_null_of_lt_holds (h : Comparison.lt.holds a b = true) :
    a.isNull = false ∧ b.isNull = false := by
  simp_all [holds]

theorem lt_holds_iff (ha : a.isNull = false) (hb : b.isNull = false) :
    Comparison.lt.holds a b = true ↔ a.compareSize b = .lt := by
  rw [holds_eq_reads_size ha hb rfl, reads, Ordering.isLT_iff_eq_lt]

theorem eq_of_reads_eq {o o' : Ordering}
    (h : ∀ op : Comparison, op.isOrdering = true → op.reads o = op.reads o') : o = o' := by
  have hle := h .le rfl
  have hge := h .ge rfl
  revert hle hge
  cases o <;> cases o' <;> simp [reads]

/-- The operators follow the order of values unless there is a null or a tie. -/
theorem forall_holds_eq_reads_iff :
    (∀ op : Comparison, op.holds a b = op.reads (compare a b)) ↔
      a.isNull = false ∧ b.isNull = false ∧ ¬ a.Tied b := by
  constructor
  · intro h
    have hnull : ¬ (a.isNull = true ∨ b.isNull = true) := by
      intro hnull
      -- Nothing is at most or greater where there is a null, but in the order it is.
      have hle := (h .le).symm.trans (holds_of_null hnull rfl)
      have hgt := (h .gt).symm.trans (holds_of_null hnull rfl)
      revert hle hgt
      cases compare a b <;> simp [reads]
    obtain ⟨ha, hb⟩ : a.isNull = false ∧ b.isNull = false := by
      simpa using hnull
    refine ⟨ha, hb, Value.compareSize_eq_compare_iff.mp (eq_of_reads_eq fun op hop => ?_)⟩
    rw [← holds_eq_reads_size ha hb hop, h op]
  · rintro ⟨ha, hb, hsharp⟩ op
    rcases hop : op.isOrdering with _ | _
    · exact holds_eq_reads hop
    · rw [holds_eq_reads_size ha hb hop, Value.compareSize_eq_compare_iff.mpr hsharp]

end Comparison

/-- With a null no operator finds that one value comes first. Otherwise the operators fit each
other, agree with equality and with the order of values, and part from that order in ties only. -/
theorem comparisons_follow_order (a b c : Value) :
    (a.isNull = true ∨ b.isNull = true →
      ∀ op : Comparison, op.isOrdering = true → op.holds a b = false) ∧
    (a.isNull = false → b.isNull = false →
      Comparison.gt.holds a b = Comparison.lt.holds b a ∧
      Comparison.ge.holds a b = Comparison.le.holds b a ∧
      Comparison.le.holds a b = !Comparison.gt.holds a b ∧
      (Comparison.lt.holds a b = true → compare a b = .lt) ∧
      (compare a b = .lt → Comparison.le.holds a b = true) ∧
      (Comparison.eq.holds a b = true →
        Comparison.le.holds a b = true ∧ Comparison.ge.holds a b = true ∧
          Comparison.le.holds b a = true ∧ Comparison.ge.holds b a = true)) ∧
    (Comparison.lt.holds a b = true → Comparison.lt.holds b c = true →
      Comparison.lt.holds a c = true) ∧
    ((∀ op : Comparison, op.holds a b = op.reads (compare a b)) ↔
      a.isNull = false ∧ b.isNull = false ∧ ¬ a.Tied b) := by
  refine ⟨fun hnull op hop => Comparison.holds_of_null hnull hop, ?_, ?_,
    Comparison.forall_holds_eq_reads_iff⟩
  · intro ha hb
    have hab (op : Comparison) (hop : op.isOrdering = true) :
        op.holds a b = op.reads (a.compareSize b) :=
      Comparison.holds_eq_reads_size ha hb hop
    have hba (op : Comparison) (hop : op.isOrdering = true) :
        op.holds b a = op.reads (b.compareSize a) :=
      Comparison.holds_eq_reads_size hb ha hop
    have hswap : b.compareSize a = (a.compareSize b).swap := Std.OrientedCmp.eq_swap
    rw [hab .gt rfl, hab .ge rfl, hab .le rfl, hab .lt rfl, hba .lt rfl, hba .le rfl, hba .ge rfl,
      hswap]
    refine ⟨?_, ?_, ?_, ?_, ?_, ?_⟩
    · cases a.compareSize b <;> rfl
    · cases a.compareSize b <;> rfl
    · cases a.compareSize b <;> rfl
    · intro hlt
      have hsize : a.compareSize b = .lt := Ordering.isLT_iff_eq_lt.mp hlt
      rw [Value.compare_eq_compareSize (by simp [hsize]), hsize]
    · intro hlt
      rw [Value.compare_eq_compareSize_then] at hlt
      revert hlt
      cases a.compareSize b <;> simp [Comparison.reads]
    · intro heq
      rw [Value.compareSize_eq_of_compare_eq (Comparison.eq_holds_iff.mp heq)]
      exact ⟨rfl, rfl, rfl, rfl⟩
  · intro hab hbc
    obtain ⟨ha, hb⟩ := Comparison.not_null_of_lt_holds hab
    obtain ⟨-, hc⟩ := Comparison.not_null_of_lt_holds hbc
    rw [Comparison.lt_holds_iff ha hb] at hab
    rw [Comparison.lt_holds_iff hb hc] at hbc
    exact (Comparison.lt_holds_iff ha hc).mpr (Value.compareSize_lt_trans hab hbc)

theorem comparisons_aroundExact :
    let before : Value := .int64 9007199254740991
    let past : Value := .int64 9007199254740993
    let float : Value := .float64 (.ofInt 9007199254740992)
    let next : Value := .int64 9007199254740995
    past.Tied float ∧ compare past float = .lt ∧ Comparison.lt.holds past float = false ∧
      Comparison.le.holds past float = true ∧
      ¬ (∀ op : Comparison, op.holds past float = op.reads (compare past float)) ∧
      Comparison.lt.holds before float = true ∧ Comparison.lt.holds float next = true ∧
      Comparison.lt.holds before next = true ∧ compare before float = .lt ∧
      (∀ op : Comparison, op.isOrdering = true → op.holds .null past = false) := by
  intro before past float next
  have htied : past.Tied float := .integerFirst (by decide +kernel)
  have horder : compare past float = .lt := by decide +kernel
  have hlower : Comparison.lt.holds before float = true := by decide +kernel
  have hupper : Comparison.lt.holds float next = true := by decide +kernel
  have hpast := comparisons_follow_order past float next
  have hbefore := comparisons_follow_order before float next
  refine ⟨htied, horder, by decide +kernel, (hpast.2.1 rfl rfl).2.2.2.2.1 horder, ?_, hlower,
    hupper, hbefore.2.2.1 hlower hupper, (hbefore.2.1 rfl rfl).2.2.2.1 hlower,
    (comparisons_follow_order .null past next).1 (.inl rfl)⟩
  exact fun hall => (hpast.2.2.2.mp hall).2.2 htied

end IndexedQuery
