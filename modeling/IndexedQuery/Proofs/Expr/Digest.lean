import IndexedQuery.Context
import IndexedQuery.Expr.Digest
import IndexedQuery.Proofs.Value.Equality
import Mathlib.Data.List.Basic

/-!
Equality of expressions is equality of their digests, because no digest begins another. A table may
therefore look for a key among the entries of its hash alone.
-/

namespace IndexedQuery

variable {r r' : List Datum}

theorem Value.digest_append_inj {v w : Value} (h : v.digest ++ r = w.digest ++ r') :
    v.digest = w.digest ∧ r = r' := by
  cases v <;> cases w <;> simp [digest] at h ⊢ <;> grind

theorem Path.digest_append_inj {p q : Path} (h : p.digest ++ r = q.digest ++ r') :
    p = q ∧ r = r' := by
  cases p <;> cases q <;> simp [digest] at h ⊢ <;> grind

theorem Path.digest_eq_iff {p q : Path} : p.digest = q.digest ↔ p = q := by
  constructor
  · intro h
    exact (digest_append_inj (congrArg (· ++ []) h)).1
  · rintro rfl
    rfl

namespace Operator

theorem mem_all (op : Operator) : op ∈ all := by
  cases op with
  | comparison c => cases c <;> decide
  | arithmetic a => cases a <;> decide
  | _ => decide

theorem digest_append_inj {op op' : Operator} (h : op.digest ++ r = op'.digest ++ r') :
    op = op' ∧ r = r' := by
  simp only [digest, List.cons_append, List.nil_append, List.cons.injEq, Datum.tag.injEq] at h
  exact ⟨(List.idxOf_inj (mem_all op)).mp h.1, h.2⟩

end Operator

namespace Expr

mutual

theorem digest_eq_of_beq : (e f : Expr) → e.beq f = true → e.digest = f.digest
  | .path p, f, h => by
      cases f <;> simp_all [Expr.beq, digest]
  | .constant v, f, h => by
      cases f <;> simp_all [Expr.beq, digest, Value.beq_iff_digest_eq]
  | .param x, f, h => by
      cases f <;> simp_all [Expr.beq, digest]
  | .operation op args, f, h => by
      cases f with
      | operation op' args' =>
          simp only [Expr.beq, Bool.and_eq_true, beq_iff_eq] at h
          obtain ⟨hlength, hargs⟩ := digestAll_eq_of_beqAll args args' h.2
          rw [digest, digest, h.1, hlength, hargs]
      | _ => simp [Expr.beq] at h

theorem digestAll_eq_of_beqAll : (es fs : List Expr) → beqAll es fs = true →
    es.length = fs.length ∧ digestAll es = digestAll fs
  | [], fs, h => by
      cases fs with
      | nil => exact ⟨rfl, rfl⟩
      | cons f fs => simp [beqAll] at h
  | e :: es, fs, h => by
      cases fs with
      | nil => simp [beqAll] at h
      | cons f fs =>
          simp only [beqAll, Bool.and_eq_true] at h
          obtain ⟨hlength, hrest⟩ := digestAll_eq_of_beqAll es fs h.2
          rw [digestAll, digestAll, digest_eq_of_beq e f h.1, hrest]
          exact ⟨congrArg (· + 1) hlength, rfl⟩

end

mutual

/-- Where two digests are followed by something, it is told from them where they end. -/
theorem beq_of_digest_append : (e f : Expr) → ∀ {r r' : List Datum},
    e.digest ++ r = f.digest ++ r' → e.beq f = true ∧ r = r'
  | .path p, f, r, r', h => by
      cases f <;> simp [digest] at h
      obtain ⟨rfl, rfl⟩ := Path.digest_append_inj h
      simp [Expr.beq]
  | .constant v, f, r, r', h => by
      cases f <;> simp [digest] at h
      obtain ⟨hvalue, rfl⟩ := Value.digest_append_inj h
      simp [Expr.beq, Value.beq_iff_digest_eq, hvalue]
  | .param x, f, r, r', h => by
      cases f <;> simp [digest] at h
      simp [Expr.beq, h]
  | .operation op args, f, r, r', h => by
      cases f <;> simp [digest] at h
      rename_i op' args'
      obtain ⟨rfl, hrest⟩ := Operator.digest_append_inj h
      -- The operands are preceded by their number, so it is clear where they end.
      simp only [List.cons.injEq, Datum.count.injEq] at hrest
      obtain ⟨hargs, rfl⟩ := beqAll_of_digestAll_append args args' hrest.1 hrest.2
      simp [Expr.beq, hargs]

theorem beqAll_of_digestAll_append : (es fs : List Expr) → es.length = fs.length →
    ∀ {r r' : List Datum}, digestAll es ++ r = digestAll fs ++ r' →
      beqAll es fs = true ∧ r = r'
  | [], fs, hlength, r, r', h => by
      cases fs with
      | nil => exact ⟨rfl, h⟩
      | cons f fs => cases hlength
  | e :: es, fs, hlength, r, r', h => by
      cases fs with
      | nil => cases hlength
      | cons f fs =>
          rw [digestAll, digestAll, List.append_assoc, List.append_assoc] at h
          obtain ⟨hhead, hrest⟩ := beq_of_digest_append e f h
          obtain ⟨htail, rfl⟩ := beqAll_of_digestAll_append es fs (Nat.succ.inj hlength) hrest
          simp [beqAll, hhead, htail]

end

theorem digest_eq_iff_beq {e f : Expr} : e.digest = f.digest ↔ (e == f) = true := by
  constructor
  · intro h
    exact (beq_of_digest_append e f (congrArg (· ++ []) h)).1
  · exact digest_eq_of_beq e f

instance : EquivBEq Expr where
  rfl := digest_eq_iff_beq.mp rfl
  symm h := digest_eq_iff_beq.mp (digest_eq_iff_beq.mpr h).symm
  trans h h' := digest_eq_iff_beq.mp ((digest_eq_iff_beq.mpr h).trans (digest_eq_iff_beq.mpr h'))

instance : LawfulHashable Expr where
  hash_eq _ _ h := congrArg (fun d : List Datum => hash d) (digest_eq_iff_beq.mpr h)

end Expr

instance : LawfulHashable Value where
  hash_eq _ _ h := congrArg (fun d : List Datum => hash d) (Value.beq_iff_digest_eq.mp h)

/-- To search the entries of equal hash is as good as to search them all. -/
theorem find?_filter_hash {κ β : Type} [BEq κ] [Hashable κ] [LawfulHashable κ]
    (entries : List (κ × β)) (key : κ) :
    (entries.filter fun entry => hash entry.1 == hash key).find? (·.1 == key) =
      entries.find? (·.1 == key) := by
  rw [List.find?_filter]
  congr 1
  funext entry
  rcases h : entry.1 == key with _ | _
  · simp
  · simp [hash_eq h]

section Tables

variable {α σ : Type}

/-- Values, paths and expressions have one digest exactly if they are equal, although equality of
values goes by their order. Neither an index nor the registrations of a context lose a key by being
searched by hash. -/
theorem digest_eq_iff_equal :
    (∀ a b : Value, a.digest = b.digest ↔ (a == b) = true) ∧
    (∀ x y : Binary64, x.isZero = true ∧ y.isZero = true ∨ x.isNaN = true ∧ y.isNaN = true →
      (Value.float64 x).digest = (Value.float64 y).digest) ∧
    (∀ n x ms, (Value.int64 n).digest ≠ (Value.float64 x).digest ∧
      (Value.int64 n).digest ≠ (Value.dateTime ms).digest) ∧
    (∀ p q : Path, p.digest = q.digest ↔ p = q) ∧
    (∀ e f : Expr, e.digest = f.digest ↔ (e == f) = true) ∧
    (∀ (index : Index Value α) key, index.get? key =
      ((index.groups.filter fun group => hash group.1 == hash key).find? (·.1 == key)).map (·.2)) ∧
    (∀ (c : Context σ) queried, c.registration? queried =
      ((c.registrations.filter fun entry => hash entry.1 == hash queried).find?
        (·.1 == queried)).map (·.2)) := by
  refine ⟨fun _ _ => Value.beq_iff_digest_eq.symm, ?_, ?_, fun _ _ => Path.digest_eq_iff,
    fun _ _ => Expr.digest_eq_iff_beq, ?_, ?_⟩
  · intro x y h
    rw [Value.digest_float64_eq_iff]
    rcases h with ⟨hx, hy⟩ | ⟨hx, hy⟩
    · rw [Binary64.rank_eq_zero_iff.mpr hx, Binary64.rank_eq_zero_iff.mpr hy]
    · rw [Binary64.rank_eq_signPlace_iff.mpr hx, Binary64.rank_eq_signPlace_iff.mpr hy]
  · intro n x ms
    simp [Value.digest]
  · intro index key
    rw [find?_filter_hash, Index.get?]
  · intro c queried
    rw [find?_filter_hash, Context.registration?]

def smallestNaN (negative : Bool) : Binary64 :=
  .ofCode negative (Binary64.infinityCode + 1)

theorem digest_zeros_and_nans :
    (Value.float64 (.ofCode true 0)).digest = (Value.float64 .zero).digest ∧
    (Value.float64 (smallestNaN true)).digest = (Value.float64 .nan).digest ∧
    (Expr.operation (.comparison .eq) [.param "x", .constant (.float64 (.ofCode true 0))]).digest =
      (Expr.operation (.comparison .eq) [.param "x", .constant (.float64 .zero)]).digest := by
  have h := digest_eq_iff_equal (α := Row) (σ := Unit)
  refine ⟨h.2.1 _ _ (.inl (by decide)), h.2.1 _ _ (.inr (by decide)), ?_⟩
  exact (h.2.2.2.2.1 _ _).mpr (by decide +kernel)

end Tables

end IndexedQuery
