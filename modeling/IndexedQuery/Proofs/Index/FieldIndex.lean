import IndexedQuery.Proofs.Index.Grouping
import IndexedQuery.Proofs.Value.Equality
import IndexedQuery.Row

namespace IndexedQuery

namespace Row

/-- Whether the row has a field at position `k` and `v` is its value. -/
def hasAt (k : Nat) (v : Value) (row : Row) : Bool :=
  row.values[k]?.any (· == v)

theorem field_eq_ok {row : Row} {k : Nat} (h : k < row.values.length) :
    row.field k = .ok (row.values.getD k .null) := by
  simp [field, h]

theorem field_eq_error {row : Row} {k : Nat} (h : row.values.length ≤ k) :
    row.field k = .error (.fieldOutOfRange k row.values.length) := by
  simp [field, h]

theorem hasAt_of_field {row : Row} {k : Nat} {v w : Value} (h : row.field k = .ok v) :
    row.hasAt k w = (v == w) := by
  unfold field at h
  split at h
  · rename_i hv
    cases h
    simp [hasAt, hv]
  · cases h

def allHave (k : Nat) (rows : List Row) : Bool :=
  rows.all (k < ·.values.length)

theorem allHave_iff {k : Nat} {rows : List Row} :
    allHave k rows = true ↔ ∀ row ∈ rows, k < row.values.length := by
  simp [allHave]

theorem exists_short_of_not_allHave {k : Nat} {rows : List Row} (h : allHave k rows = false) :
    ∃ row ∈ rows, row.values.length ≤ k := by
  simpa [allHave] using h

end Row

namespace Index

/-- The rows grouped by their field at position `k`, which all of them are meant to have. -/
def byField (k : Nat) (rows : List Row) : Index Value Row :=
  group (fun row => row.values.getD k .null) rows

theorem get?_byField {k : Nat} {rows : List Row} (h : Row.allHave k rows = true) (v : Value) :
    (byField k rows).get? v = present (rows.filter (·.hasAt k v)) := by
  rw [byField, get?_group]
  congr 1
  apply List.filter_congr
  intro row hrow
  exact (Row.hasAt_of_field (Row.field_eq_ok (Row.allHave_iff.mp h row hrow))).symm

/-- The index is the grouping of the rows by their field at position `k`: all of them have the field,
under every value stand its rows in their order, each row is there once, and no value opens two
groups. -/
structure GroupsBy (k : Nat) (rows : List Row) (index : Index Value Row) : Prop where
  all_have : ∀ row ∈ rows, k < row.values.length
  get?_eq : ∀ v, index.get? v = present (rows.filter (·.hasAt k v))
  perm : (index.groups.flatMap (·.2)).Perm rows
  distinct : index.keys.Pairwise fun v w => (v == w) = false

theorem groupsBy_byField {k : Nat} {rows : List Row} (h : Row.allHave k rows = true) :
    (byField k rows).GroupsBy k rows where
  all_have := Row.allHave_iff.mp h
  get?_eq := get?_byField h
  perm := flatMap_group_perm _ rows
  distinct := pairwise_keys_group _ rows

variable {describe : Error → Error}

theorem build_byField {k : Nat} {rows : List Row} (h : Row.allHave k rows = true) :
    build (rows.map .ok) (fun row => (row.field k).mapError describe) =
      .ok (byField k rows) := by
  apply build_eq_ok
  intro row hrow
  rw [Row.field_eq_ok (Row.allHave_iff.mp h row hrow)]
  rfl

theorem build_byField_error (describe : Error → Error) {k : Nat} {rows : List Row}
    (h : Row.allHave k rows = false) :
    ∃ row ∈ rows, row.values.length ≤ k ∧
      build (rows.map .ok) (fun row => (row.field k).mapError describe) =
        .error (describe (.fieldOutOfRange k row.values.length)) := by
  obtain ⟨short, hmem, hshort⟩ := Row.exists_short_of_not_allHave h
  have hfails : ∃ row ∈ rows, ∀ v : Value, (row.field k).mapError describe ≠ .ok v := by
    refine ⟨short, hmem, ?_⟩
    intro v hv
    rw [Row.field_eq_error hshort] at hv
    cases hv
  obtain ⟨row, hrow, e, hkey, hbuild⟩ := build_eq_error hfails
  rcases Nat.lt_or_ge k row.values.length with hlt | hge
  · rw [Row.field_eq_ok hlt] at hkey
    cases hkey
  · rw [Row.field_eq_error hge] at hkey
    cases hkey
    exact ⟨row, hrow, hge, hbuild⟩

theorem eq_byField_of_build {k : Nat} {pass : List (Except Error Row)} {index : Index Value Row}
    (h : build pass (fun row => (row.field k).mapError describe) = .ok index) :
    ∃ rows : List Row, pass = rows.map .ok ∧ Row.allHave k rows = true ∧
      index = byField k rows := by
  obtain ⟨rows, rfl, hkeys⟩ := complete_of_build_eq_ok h
  have hall : Row.allHave k rows = true := by
    rw [Row.allHave_iff]
    intro row hrow
    obtain ⟨v, hv⟩ := hkeys row hrow
    by_contra hshort
    rw [Row.field_eq_error (Nat.le_of_not_lt hshort)] at hv
    cases hv
  refine ⟨rows, rfl, hall, ?_⟩
  rw [build_byField hall] at h
  exact (Except.ok.inj h).symm

end Index

end IndexedQuery
