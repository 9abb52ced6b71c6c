import IndexedQuery.Proofs.Index.Grouping
import IndexedQuery.Proofs.Session.Run
import IndexedQuery.Proofs.Value.Equality
import Mathlib.Algebra.GroupWithZero.Nat
import Mathlib.Data.List.Forall2

/-!
An index is the partition of its items by their keys, and its statistics are those of the partition.
It comes about only if every item comes and has a key; the first one that does not ends the build.
-/

namespace IndexedQuery

namespace IndexStats

theorem foldl_addGroup (lengths : List Nat) (s : IndexStats) :
    lengths.foldl addGroup s =
      ⟨s.total + lengths.sum, s.distinct + lengths.length, lengths.foldl max s.largest⟩ := by
  induction lengths generalizing s with
  | nil => simp
  | cons n lengths ih =>
      rw [List.foldl_cons, ih, addGroup]
      simp [Nat.add_assoc, Nat.add_comm 1]

theorem addGroup_comm (s : IndexStats) (m n : Nat) :
    (s.addGroup m).addGroup n = (s.addGroup n).addGroup m := by
  simp only [addGroup, mk.injEq, true_and]
  omega

end IndexStats

namespace Index

variable {κ α ε : Type}

section Watched

variable [BEq κ] {m : Type → Type} [Monad m] {key : α → Except ε κ}

/-- To add what comes of an item, in any monad. -/
def addM (key : α → m κ) (index : Index κ α) (item : m α) : m (Index κ α) := do
  let a ← item
  return index.add (← key a) a

theorem foldlM_addM (items : List (Except ε α)) :
    items.foldlM (addM key) empty = build items key :=
  rfl

/-- To pull an item counts, whatever comes of it. -/
def pull (item : Except ε α) : ExceptT ε (StateM Nat) α := fun pulled =>
  (item, pulled + 1)

/-- What a build makes of the items, and how many of them it has pulled by then. -/
def extendCounting (key : α → Except ε κ) (index : Index κ α) (items : List (Except ε α)) :
    ExceptT ε (StateM Nat) (Index κ α) :=
  (items.map pull).foldlM (addM fun a pulled => (key a, pulled)) index

def buildCounting (items : List (Except ε α)) (key : α → Except ε κ) :
    Except ε (Index κ α) × Nat :=
  extendCounting key empty items 0

theorem addM_pull (index : Index κ α) (item : Except ε α) (pulled : Nat) :
    addM (fun a pulled => (key a, pulled)) index (pull item) pulled =
      (addM key index item, pulled + 1) := by
  rcases item with e | a
  · rfl
  · have hadd : addM key index (.ok a) = key a >>= fun k => .ok (index.add k a) := rfl
    rw [hadd]
    refine (bind_of_ok rfl).trans ?_
    rcases hkey : key a with e | k
    · exact bind_of_error (congrArg (·, pulled + 1) hkey)
    · exact bind_of_ok (congrArg (·, pulled + 1) hkey)

theorem addM_of_error {item : Except ε α} {e : ε} (h : (item >>= key) = .error e)
    (index : Index κ α) : addM key index item = .error e := by
  rcases item with e' | a
  · cases h
    rfl
  · have hkey : key a = .error e := h
    change key a >>= _ = _
    rw [hkey]
    rfl

/-- The item comes, and its key is that of the entry. -/
def Comes (key : α → Except ε κ) (item : Except ε α) (entry : κ × α) : Prop :=
  item = .ok entry.2 ∧ key entry.2 = .ok entry.1

omit [BEq κ] in
theorem comes_rightUnique : Relator.RightUnique (Comes key) := by
  rintro item ⟨k, a⟩ ⟨k', a'⟩ ⟨rfl, hkey⟩ ⟨hitem, hkey'⟩
  cases hitem
  cases hkey.symm.trans hkey'
  rfl

/-- The item behind `before` is the first one that fails, or whose key fails, with the error `e`. -/
def FailsAfter (key : α → Except ε κ) (before items : List (Except ε α)) (e : ε) : Prop :=
  ∃ item after, items = before ++ item :: after ∧
    (∀ earlier ∈ before, ∃ entry, Comes key earlier entry) ∧ (item >>= key) = .error e

theorem addM_of_comes {item : Except ε α} {entry : κ × α} (h : Comes key item entry)
    (index : Index κ α) : addM key index item = .ok (index.add entry.1 entry.2) := by
  obtain ⟨rfl, hkey⟩ := h
  change key entry.2 >>= _ = _
  rw [hkey]
  rfl

theorem extendCounting_cons (index : Index κ α) (item : Except ε α) (items : List (Except ε α))
    (pulled : Nat) :
    extendCounting key index (item :: items) pulled =
      match addM key index item with
      | .error e => (.error e, pulled + 1)
      | .ok index => extendCounting key index items (pulled + 1) := by
  have hfirst : addM (fun a pulled => (key a, pulled)) index (pull item) pulled =
      (addM key index item, pulled + 1) := addM_pull index item pulled
  rw [extendCounting, List.map_cons, List.foldlM_cons]
  rcases hadd : addM key index item with e | next
  · exact bind_of_error (hfirst.trans (by rw [hadd]))
  · exact bind_of_ok (hfirst.trans (by rw [hadd]))

theorem extendCounting_fst (index : Index κ α) (items : List (Except ε α)) (pulled : Nat) :
    (extendCounting key index items pulled).1 = items.foldlM (addM key) index := by
  induction items generalizing index pulled with
  | nil => rfl
  | cons item items ih =>
      rw [extendCounting_cons, List.foldlM_cons]
      rcases addM key index item with e | next
      · rfl
      · exact ih next (pulled + 1)

theorem extendCounting_of_comes {items : List (Except ε α)} {entries : List (κ × α)}
    (h : List.Forall₂ (Comes key) items entries) (index : Index κ α) (pulled : Nat) :
    extendCounting key index items pulled =
      (.ok (entries.foldl (fun index entry => index.add entry.1 entry.2) index),
        pulled + items.length) := by
  induction h generalizing index pulled with
  | nil => rfl
  | @cons item entry items entries hitem _ ih =>
      rw [extendCounting_cons, addM_of_comes hitem]
      simp only [ih, List.foldl_cons, List.length_cons, Nat.add_assoc, Nat.add_comm 1]

/-- The first item that fails ends the build, and it is the last one that is pulled. -/
theorem extendCounting_of_failure {before items : List (Except ε α)} {e : ε}
    (h : FailsAfter key before items e) (index : Index κ α) (pulled : Nat) :
    extendCounting key index items pulled = (.error e, pulled + before.length + 1) := by
  obtain ⟨item, after, rfl, hbefore, hitem⟩ := h
  induction before generalizing index pulled with
  | nil =>
      rw [List.nil_append, extendCounting_cons, addM_of_error hitem]
      rfl
  | cons earlier before ih =>
      obtain ⟨entry, hentry⟩ := hbefore earlier (.head before)
      rw [List.cons_append, extendCounting_cons, addM_of_comes hentry]
      simp only [ih _ _ fun other hother => hbefore other (.tail earlier hother),
        List.length_cons, Nat.add_assoc, Nat.add_comm 1]

omit [BEq κ] in
theorem exists_comes {items : List (Except ε α)} {entries : List (κ × α)}
    (h : List.Forall₂ (Comes key) items entries) : ∀ item ∈ items, ∃ entry, Comes key item entry := by
  induction h with
  | nil => simp
  | cons hitem _ ih => exact List.forall_mem_cons.mpr ⟨⟨_, hitem⟩, ih⟩

omit [BEq κ] in
theorem FailsAfter.not_forall {before items : List (Except ε α)} {e : ε}
    (h : FailsAfter key before items e) : ¬ ∀ item ∈ items, ∃ entry, Comes key item entry := by
  obtain ⟨item, after, rfl, -, hitem⟩ := h
  intro hall
  obtain ⟨⟨k, a⟩, rfl, hkey⟩ := hall item (by simp)
  cases hkey.symm.trans hitem

omit [BEq κ] in
theorem comes_or_fails (key : α → Except ε κ) (items : List (Except ε α)) :
    (∃ entries, List.Forall₂ (Comes key) items entries) ∨
      ∃ before e, FailsAfter key before items e := by
  induction items with
  | nil => exact .inl ⟨[], .nil⟩
  | cons item items ih =>
      rcases hitem : item >>= key with e | k
      · exact .inr ⟨[], e, item, items, rfl, by simp, hitem⟩
      · obtain ⟨a, ha, hkey⟩ : ∃ a, item = .ok a ∧ key a = .ok k := by
          rcases item with e | a
          · cases hitem
          · exact ⟨a, rfl, hitem⟩
        have hcomes : Comes key item (k, a) := ⟨ha, hkey⟩
        rcases ih with ⟨entries, hentries⟩ | ⟨before, e, other, after, rfl, hbefore, hother⟩
        · exact .inl ⟨_, .cons hcomes hentries⟩
        · exact .inr ⟨item :: before, e, other, after, rfl,
            List.forall_mem_cons.mpr ⟨⟨_, hcomes⟩, hbefore⟩, hother⟩

end Watched

theorem stats_eq (index : Index κ α) :
    index.stats = ⟨(index.groups.flatMap (·.2)).length, index.keyCount,
      (index.groups.map (·.2.length)).foldl max 0⟩ := by
  rw [stats, ← List.foldl_map (f := fun group : κ × List α => group.2.length)
    (g := IndexStats.addGroup), IndexStats.foldl_addGroup]
  simp [IndexStats.zero, keyCount, List.length_flatMap]

theorem stats_of_perm {index : Index κ α} {visited : List (κ × List α)}
    (h : visited.Perm index.groups) :
    visited.foldl (fun s group => s.addGroup group.2.length) .zero = index.stats :=
  h.foldl_eq' (fun _ _ _ _ s => IndexStats.addGroup_comm s _ _) .zero

theorem foldl_max_eq_max? (ns : List Nat) : ns.foldl max 0 = ns.max?.getD 0 := by
  cases ns with
  | nil => rfl
  | cons n ns => rw [List.foldl_cons, Nat.zero_max]; rfl

/-! ## Groups -/

section Groups

variable [BEq κ]

theorem contains_eq (index : Index κ α) (k : κ) :
    index.contains k = (index.get? k).isSome := by
  rw [contains, get?, Option.isSome_map, List.isSome_find?]

theorem isSome_present (items : List α) : (present items).isSome = !items.isEmpty := by
  cases items <;> rfl

variable [EquivBEq κ]

theorem eraseDups_append_singleton : (ks : List κ) → (k : κ) →
    (ks ++ [k]).eraseDups = if ks.any (· == k) then ks.eraseDups else ks.eraseDups ++ [k]
  | [], k => by simp [List.eraseDups_cons]
  | x :: ks, k => by
      rw [List.cons_append, List.eraseDups_cons, List.eraseDups_cons, List.filter_append]
      by_cases hx : (x == k) = true
      · have hk : (k == x) = true := PartialEquivBEq.symm hx
        simp [hx, hk]
      · have hk : (k == x) = false := by
          rw [Bool.eq_false_iff]
          exact fun hk => hx (PartialEquivBEq.symm hk)
        -- No `k` is lost along with the repetitions of `x`.
        have hany : (ks.filter fun y => !y == x).any (· == k) = ks.any (· == k) := by
          rw [List.any_filter]
          congr 1
          funext y
          by_cases hy : (y == k) = true
          · have hyx : (y == x) = false := by
              rw [Bool.eq_false_iff]
              exact fun hyx => hx (PartialEquivBEq.trans (PartialEquivBEq.symm hyx) hy)
            simp [hy, hyx]
          · simp [hy]
        have ih := eraseDups_append_singleton (ks.filter fun y => !y == x) k
        rw [hany] at ih
        simp only [hk, Bool.not_false, List.filter_cons_of_pos, List.filter_nil, ih, List.any_cons,
          hx, Bool.false_or]
        split <;> simp
  termination_by ks => ks.length
  decreasing_by exact Nat.lt_succ_of_le (List.length_filter_le _ _)

theorem contains_ofEntries (entries : List (κ × α)) (k : κ) :
    (ofEntries entries).contains k = (entries.map (·.1)).any (· == k) := by
  rw [contains_eq, get?_ofEntries, isSome_present]
  induction entries with
  | nil => rfl
  | cons entry entries ih =>
      by_cases h : (entry.1 == k) = true
      · simp [h]
      · simpa [h] using ih

theorem keys_ofEntries (entries : List (κ × α)) :
    (ofEntries entries).keys = (entries.map (·.1)).eraseDups := by
  induction entries using List.reverseRecOn with
  | nil => rfl
  | append_singleton entries entry ih =>
      rw [ofEntries_append_singleton, keys, add, keys_addTo, List.map_append,
        List.map_singleton, eraseDups_append_singleton, ← contains_ofEntries, ← ih]
      rfl

theorem get?_of_mem {groups : List (κ × List α)} {group : κ × List α}
    (hdistinct : (groups.map (·.1)).Pairwise fun k k' => (k == k') = false)
    (h : group ∈ groups) : get? ⟨groups⟩ group.1 = some group.2 := by
  induction groups with
  | nil => cases h
  | cons first rest ih =>
      obtain ⟨hfirst, hrest⟩ := List.pairwise_cons.mp hdistinct
      rcases List.mem_cons.mp h with rfl | h
      · simp [get?]
      · have hother := hfirst group.1 (List.mem_map.mpr ⟨group, h, rfl⟩)
        simpa [get?, hother] using ih hrest h

/-- The index holds the entries: under each key its items in their order, and each key as it first
came. The statistics are those of the groups, in whatever order these are visited. -/
structure Partitions (entries : List (κ × α)) (index : Index κ α) : Prop where
  lookup_eq : ∀ k, index.lookup k = (entries.filter (·.1 == k)).map (·.2)
  isSome_get? : ∀ k, (index.get? k).isSome = true ↔ index.lookup k ≠ []
  contains_iff : ∀ k, index.contains k = true ↔ index.lookup k ≠ []
  keys_eq : index.keys = (entries.map (·.1)).eraseDups
  size_eq : index.size = entries.length
  keyCount_eq : index.keyCount = (entries.map (·.1)).eraseDups.length
  distinct_eq : index.stats.distinct = (entries.map (·.1)).eraseDups.length
  largest_eq : index.stats.largest = (index.keys.map fun k => (index.lookup k).length).max?.getD 0
  stats_eq : ∀ visited : List (κ × List α), visited.Perm index.groups →
    visited.foldl (fun s group => s.addGroup group.2.length) .zero = index.stats

theorem ofEntries_partitions (entries : List (κ × α)) :
    (ofEntries entries).Partitions entries := by
  have hlookup : ∀ k, (ofEntries entries).lookup k =
      (entries.filter (·.1 == k)).map (·.2) := by
    intro k
    rw [lookup, get?_ofEntries, getD_present]
  have hsome : ∀ k, ((ofEntries entries).get? k).isSome = true ↔
      (ofEntries entries).lookup k ≠ [] := by
    intro k
    rw [hlookup, get?_ofEntries, isSome_present]
    simp
  have hkeys := keys_ofEntries entries
  have hcount : (ofEntries entries).keyCount = (entries.map (·.1)).eraseDups.length := by
    rw [← hkeys, keys, List.length_map, keyCount]
  have hlengths : (ofEntries entries).groups.map (·.2.length) =
      (ofEntries entries).keys.map fun k => ((ofEntries entries).lookup k).length := by
    rw [keys, List.map_map]
    apply List.map_congr_left
    intro group hgroup
    simp [lookup, get?_of_mem (pairwise_keys_ofEntries entries) hgroup]
  constructor
  · exact hlookup
  · exact hsome
  · intro k
    rw [contains_eq]
    exact hsome k
  · exact hkeys
  · rw [size, stats_eq, (flatMap_ofEntries_perm entries).length_eq, List.length_map]
  · exact hcount
  · rw [stats_eq, hcount]
  · rw [stats_eq, hlengths, foldl_max_eq_max?]
  · exact fun visited h => stats_of_perm h

end Groups

/-! ## Builds -/

section Builds

variable [BEq κ]

theorem buildCounting_fst (items : List (Except ε α)) (key : α → Except ε κ) :
    (buildCounting items key).1 = build items key := by
  rw [buildCounting, extendCounting_fst, foldlM_addM]

theorem buildCounting_of_comes {key : α → Except ε κ} {items : List (Except ε α)}
    {entries : List (κ × α)} (h : List.Forall₂ (Comes key) items entries) :
    buildCounting items key = (.ok (ofEntries entries), items.length) := by
  rw [buildCounting, extendCounting_of_comes h, Nat.zero_add]
  rfl

theorem buildCounting_of_fails {key : α → Except ε κ} {before items : List (Except ε α)} {e : ε}
    (h : FailsAfter key before items e) :
    buildCounting items key = (.error e, before.length + 1) := by
  rw [buildCounting, extendCounting_of_failure h, Nat.zero_add]

theorem exists_entries_of_build {key : α → Except ε κ} {items : List (Except ε α)}
    {index : Index κ α} (h : build items key = .ok index) :
    ∃ entries, List.Forall₂ (Comes key) items entries ∧ index = ofEntries entries := by
  rw [← buildCounting_fst] at h
  rcases comes_or_fails key items with ⟨entries, hentries⟩ | ⟨before, e, hfails⟩
  · rw [buildCounting_of_comes hentries] at h
    exact ⟨entries, hentries, (Except.ok.inj h).symm⟩
  · rw [buildCounting_of_fails hfails] at h
    cases h

/-- A build succeeds if and only if every item comes and has a key, and then the index is the
partition of the items by their keys. Otherwise the first item that fails decides the outcome, and
no item behind it is pulled. -/
theorem build_partitions [EquivBEq κ] (items : List (Except ε α)) (key : α → Except ε κ) :
    ((∃ index, build items key = .ok index) ↔ ∀ item ∈ items, ∃ entry, Comes key item entry) ∧
    (∀ e, build items key = .error e ↔ ∃ before, FailsAfter key before items e) ∧
    (buildCounting items key).1 = build items key ∧
    (∀ before e, FailsAfter key before items e →
      (buildCounting items key).2 = before.length + 1) ∧
    ∀ index, build items key = .ok index → (buildCounting items key).2 = items.length ∧
      ∃ entries, List.Forall₂ (Comes key) items entries ∧ index.Partitions entries := by
  refine ⟨⟨?_, ?_⟩, fun e => ⟨?_, ?_⟩, buildCounting_fst items key, ?_, ?_⟩
  · rintro ⟨index, hindex⟩
    obtain ⟨entries, hentries, -⟩ := exists_entries_of_build hindex
    exact exists_comes hentries
  · intro hall
    rcases comes_or_fails key items with ⟨entries, hentries⟩ | ⟨before, e, hfails⟩
    · exact ⟨ofEntries entries, by rw [← buildCounting_fst, buildCounting_of_comes hentries]⟩
    · exact absurd hall hfails.not_forall
  · intro herror
    rw [← buildCounting_fst] at herror
    rcases comes_or_fails key items with ⟨entries, hentries⟩ | ⟨before, e', hfails⟩
    · rw [buildCounting_of_comes hentries] at herror
      cases herror
    · rw [buildCounting_of_fails hfails] at herror
      cases herror
      exact ⟨before, hfails⟩
  · rintro ⟨before, hfails⟩
    rw [← buildCounting_fst, buildCounting_of_fails hfails]
  · intro before e hfails
    rw [buildCounting_of_fails hfails]
  · intro index hindex
    obtain ⟨entries, hentries, rfl⟩ := exists_entries_of_build hindex
    exact ⟨by rw [buildCounting_of_comes hentries], entries, hentries, ofEntries_partitions entries⟩

def signedZero : Nat → Except String Value
  | 0 => .ok (.float64 (.ofCode true 0))
  | 2 => .ok (.float64 .zero)
  | n => .ok (.int64 (.ofNat n))

theorem build_signedZeros :
    (∃ index, build [.ok 0, .ok 1, .ok 2] signedZero = .ok index ∧
      index.lookup (.float64 .zero) = [0, 2] ∧
      index.keys.map (·.float64?) = [some (.ofCode true 0), none] ∧
      index.stats.distinct = 2) ∧
    build [.ok 0, .error "lost", .ok 2] signedZero = .error "lost" ∧
    (buildCounting [.ok 0, .error "lost", .ok 2] signedZero).2 = 2 := by
  have hentries : List.Forall₂ (Comes signedZero) [.ok 0, .ok 1, .ok 2]
      [(.float64 (.ofCode true 0), 0), (.int64 1, 1), (.float64 .zero, 2)] :=
    .cons ⟨rfl, rfl⟩ (.cons ⟨rfl, rfl⟩ (.cons ⟨rfl, rfl⟩ .nil))
  have hfails : FailsAfter signedZero [.ok 0] [.ok 0, .error "lost", .ok 2] "lost" := by
    refine ⟨.error "lost", [.ok 2], rfl, ?_, rfl⟩
    rintro _ hearlier
    rw [List.mem_singleton.mp hearlier]
    exact ⟨(.float64 (.ofCode true 0), 0), rfl, rfl⟩
  obtain ⟨hok, -, -, -, hparts⟩ := build_partitions [.ok 0, .ok 1, .ok 2] signedZero
  obtain ⟨-, herror, -, hpulled, -⟩ := build_partitions [.ok 0, .error "lost", .ok 2] signedZero
  refine ⟨?_, (herror "lost").mpr ⟨_, hfails⟩, hpulled _ _ hfails⟩
  obtain ⟨index, hindex⟩ := hok.mpr (exists_comes hentries)
  obtain ⟨-, entries, hentries', hpartitions⟩ := hparts index hindex
  have hsame := comes_rightUnique.forall₂ hentries hentries'
  subst hsame
  refine ⟨index, hindex, ?_, ?_, ?_⟩
  · rw [hpartitions.lookup_eq]
    decide +kernel
  · rw [hpartitions.keys_eq]
    decide +kernel
  · rw [hpartitions.distinct_eq]
    decide +kernel

end Builds

end Index

end IndexedQuery
