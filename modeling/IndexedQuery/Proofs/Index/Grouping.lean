import IndexedQuery.Index
import Mathlib.Data.List.Induction

namespace IndexedQuery.Index

variable {κ α ε : Type} [BEq κ]

/-- What adding items one by one leads to, each under the key it comes with. -/
def ofEntries (entries : List (κ × α)) : Index κ α :=
  entries.foldl (fun index entry => index.add entry.1 entry.2) empty

def group (key : α → κ) (items : List α) : Index κ α :=
  items.foldl (fun index a => index.add (key a) a) empty

/-- A group as an index shows it: one without items is absent. -/
def present (items : List α) : Option (List α) :=
  if items.isEmpty then none else some items

@[simp] theorem present_nil : present ([] : List α) = none :=
  rfl

@[simp] theorem present_append_singleton (items : List α) (a : α) :
    present (items ++ [a]) = some (items ++ [a]) := by
  simp [present]

@[simp] theorem getD_present (items : List α) : (present items).getD [] = items := by
  cases items <;> rfl

theorem ofEntries_append_singleton (entries : List (κ × α)) (entry : κ × α) :
    ofEntries (entries ++ [entry]) = (ofEntries entries).add entry.1 entry.2 := by
  simp [ofEntries]

theorem group_eq_ofEntries (key : α → κ) (items : List α) :
    group key items = ofEntries (items.map fun a => (key a, a)) := by
  rw [group, ofEntries, List.foldl_map]

theorem flatMap_addTo_perm (key : κ) (item : α) (groups : List (κ × List α)) :
    ((addTo key item groups).flatMap (·.2)).Perm (groups.flatMap (·.2) ++ [item]) := by
  induction groups with
  | nil => simp [addTo]
  | cons entry groups ih =>
      obtain ⟨k, items⟩ := entry
      rw [addTo]
      split
      · simp only [List.flatMap_cons, List.append_assoc]
        exact List.perm_append_comm.append_left items
      · simp only [List.flatMap_cons, List.append_assoc]
        exact ih.append_left items

theorem flatMap_ofEntries_perm (entries : List (κ × α)) :
    ((ofEntries entries).groups.flatMap (·.2)).Perm (entries.map (·.2)) := by
  induction entries using List.reverseRecOn with
  | nil => exact .nil
  | append_singleton entries entry ih =>
      rw [ofEntries_append_singleton, List.map_append]
      exact (flatMap_addTo_perm entry.1 entry.2 _).trans (ih.append_right [entry.2])

/-- The groups share the items among themselves: each occurrence stands in exactly one of them. -/
theorem flatMap_group_perm (key : α → κ) (items : List α) :
    ((group key items).groups.flatMap (·.2)).Perm items := by
  have h := flatMap_ofEntries_perm (items.map fun a => (key a, a))
  rw [List.map_map] at h
  rw [group_eq_ofEntries]
  exact h.trans (.of_eq (List.map_id items))

theorem keys_addTo (key : κ) (item : α) (groups : List (κ × List α)) :
    (addTo key item groups).map (·.1) =
      if groups.any (·.1 == key) then groups.map (·.1) else groups.map (·.1) ++ [key] := by
  induction groups with
  | nil => rfl
  | cons entry groups ih =>
      obtain ⟨k, items⟩ := entry
      by_cases hkey : (k == key) = true
      · simp [addTo, hkey]
      · simp only [addTo, hkey, Bool.false_eq_true, if_false, List.map_cons, List.any_cons,
          Bool.false_or, ih]
        split <;> rfl

theorem pairwise_keys_ofEntries (entries : List (κ × α)) :
    (ofEntries entries).keys.Pairwise fun k k' => (k == k') = false := by
  induction entries using List.reverseRecOn with
  | nil => exact .nil
  | append_singleton entries entry ih =>
      rw [ofEntries_append_singleton, keys, add, keys_addTo]
      split
      · exact ih
      · rename_i hnew
        rw [List.pairwise_append]
        refine ⟨ih, List.pairwise_singleton _ _, ?_⟩
        intro k hk k' hk'
        obtain ⟨group, hgroup, rfl⟩ := List.mem_map.mp hk
        rw [List.mem_singleton.mp hk', Bool.eq_false_iff]
        exact fun hsame => hnew (List.any_eq_true.mpr ⟨group, hgroup, hsame⟩)

theorem pairwise_keys_group (key : α → κ) (items : List α) :
    (group key items).keys.Pairwise fun k k' => (k == k') = false := by
  rw [group_eq_ofEntries]
  exact pairwise_keys_ofEntries _

section Build

variable {key : α → Except ε κ}

/-- A build that starts from what an index holds already. -/
def extend (key : α → Except ε κ) (index : Index κ α) (items : List (Except ε α)) :
    Except ε (Index κ α) :=
  items.foldlM (fun index item => do
    let a ← item
    return index.add (← key a) a) index

theorem extend_cons_of_key_ok {a : α} {k : κ} (hkey : key a = .ok k) (index : Index κ α)
    (items : List (Except ε α)) :
    extend key index (.ok a :: items) = extend key (index.add k a) items := by
  simp only [extend, List.foldlM_cons]
  change (key a >>= _) >>= _ = _
  rw [hkey]
  rfl

theorem extend_cons_of_key_error {a : α} {e : ε} (hkey : key a = .error e) (index : Index κ α)
    (items : List (Except ε α)) :
    extend key index (.ok a :: items) = .error e := by
  simp only [extend, List.foldlM_cons]
  change (key a >>= _) >>= _ = _
  rw [hkey]
  rfl

theorem extend_eq_ok {known : α → κ} {items : List α}
    (hkey : ∀ a ∈ items, key a = .ok (known a)) (index : Index κ α) :
    extend key index (items.map .ok) =
      .ok (items.foldl (fun index a => index.add (known a) a) index) := by
  induction items generalizing index with
  | nil => rfl
  | cons a items ih =>
      rw [List.map_cons, extend_cons_of_key_ok (hkey a (by simp)), List.foldl_cons]
      exact ih (fun b hb => hkey b (by simp [hb])) _

theorem build_eq_ok {known : α → κ} {items : List α}
    (hkey : ∀ a ∈ items, key a = .ok (known a)) :
    build (items.map .ok) key = .ok (group known items) :=
  extend_eq_ok hkey empty

theorem complete_of_extend_eq_ok {items : List (Except ε α)} {start index : Index κ α}
    (h : extend key start items = .ok index) :
    ∃ found : List α, items = found.map .ok ∧ ∀ a ∈ found, ∃ k, key a = .ok k := by
  induction items generalizing start with
  | nil => exact ⟨[], rfl, by simp⟩
  | cons item items ih =>
      rcases item with e | a
      · cases h
      · rcases hkey : key a with e | k
        · rw [extend_cons_of_key_error hkey] at h
          cases h
        · rw [extend_cons_of_key_ok hkey] at h
          obtain ⟨found, rfl, hfound⟩ := ih h
          refine ⟨a :: found, rfl, ?_⟩
          intro b hb
          rcases List.mem_cons.mp hb with rfl | hb
          · exact ⟨k, hkey⟩
          · exact hfound b hb

theorem complete_of_build_eq_ok {items : List (Except ε α)} {index : Index κ α}
    (h : build items key = .ok index) :
    ∃ found : List α, items = found.map .ok ∧ ∀ a ∈ found, ∃ k, key a = .ok k :=
  complete_of_extend_eq_ok h

theorem extend_eq_error {items : List α} (h : ∃ a ∈ items, ∀ k, key a ≠ .ok k)
    (index : Index κ α) :
    ∃ a ∈ items, ∃ e, key a = .error e ∧ extend key index (items.map .ok) = .error e := by
  induction items generalizing index with
  | nil => simp at h
  | cons a items ih =>
      rcases hkey : key a with e | k
      · exact ⟨a, by simp, e, hkey, extend_cons_of_key_error hkey index _⟩
      · obtain ⟨b, hb, hfail⟩ := h
        have hb' : b ∈ items := by
          rcases List.mem_cons.mp hb with rfl | hb
          · exact absurd hkey (hfail k)
          · exact hb
        obtain ⟨c, hc, e, hce, hbuild⟩ := ih ⟨b, hb', hfail⟩ (index.add k a)
        refine ⟨c, by simp [hc], e, hce, ?_⟩
        rw [List.map_cons, extend_cons_of_key_ok hkey]
        exact hbuild

theorem build_eq_error {items : List α} (h : ∃ a ∈ items, ∀ k, key a ≠ .ok k) :
    ∃ a ∈ items, ∃ e, key a = .error e ∧ build (items.map .ok) key = .error e :=
  extend_eq_error h empty

theorem cause_of_extend_eq_error {items : List (Except ε α)} {start : Index κ α} {e : ε}
    (h : extend key start items = .error e) : .error e ∈ items ∨ ∃ a, key a = .error e := by
  induction items generalizing start with
  | nil => cases h
  | cons item items ih =>
      rcases item with e' | a
      · cases h
        exact .inl (.head items)
      · rcases hkey : key a with e' | k
        · rw [extend_cons_of_key_error hkey] at h
          cases h
          exact .inr ⟨a, hkey⟩
        · rw [extend_cons_of_key_ok hkey] at h
          exact (ih h).imp_left (.tail _)

theorem cause_of_build_eq_error {items : List (Except ε α)} {e : ε}
    (h : build items key = .error e) : .error e ∈ items ∨ ∃ a, key a = .error e :=
  cause_of_extend_eq_error h

end Build

variable [EquivBEq κ]

theorem get?_add (index : Index κ α) (key : κ) (item : α) (k : κ) :
    (index.add key item).get? k =
      if key == k then some (index.lookup k ++ [item]) else index.get? k := by
  rcases index with ⟨groups⟩
  simp only [add, lookup, get?]
  induction groups with
  | nil => by_cases h : (key == k) = true <;> simp [addTo, h]
  | cons entry groups ih =>
      obtain ⟨k', items⟩ := entry
      simp only [addTo]
      by_cases hkey : (k' == key) = true
      · by_cases h : (key == k) = true
        · simp [hkey, h, PartialEquivBEq.trans hkey h]
        · have hk : (k' == k) = false := by
            rw [Bool.eq_false_iff]
            exact fun hk => h (PartialEquivBEq.trans (PartialEquivBEq.symm hkey) hk)
          simp [hkey, h, hk]
      · by_cases h : (key == k) = true
        · have hk : (k' == k) = false := by
            rw [Bool.eq_false_iff]
            exact fun hk => hkey (PartialEquivBEq.trans hk (PartialEquivBEq.symm h))
          simpa [hkey, h, hk] using ih
        · by_cases hk : (k' == k) = true
          · simp [hkey, h, hk]
          · simpa [hkey, h, hk] using ih

/-- An index answers a key by the subsequence of the items with that key. -/
theorem get?_ofEntries (entries : List (κ × α)) (k : κ) :
    (ofEntries entries).get? k = present ((entries.filter (·.1 == k)).map (·.2)) := by
  induction entries using List.reverseRecOn with
  | nil => rfl
  | append_singleton entries entry ih =>
      rw [ofEntries_append_singleton, get?_add, lookup, ih]
      by_cases h : (entry.1 == k) = true <;> simp [h]

theorem get?_group (key : α → κ) (items : List α) (k : κ) :
    (group key items).get? k = present (items.filter fun a => key a == k) := by
  rw [group_eq_ofEntries, get?_ofEntries, List.filter_map, List.map_map]
  simp [Function.comp_def]

end IndexedQuery.Index
