import IndexedQuery.Index.Cache
import Mathlib.Data.List.Basic

namespace IndexedQuery.Cache

variable {π κ α : Type} [BEq π] {cache : Cache π κ α} {path other : π} {index kept : Index κ α}

theorem keep_of_kept (h : cache.get? path = some kept) :
    cache.keep path index = (kept, cache) := by
  simp [keep, h]

theorem keep_of_absent (h : cache.get? path = none) :
    cache.keep path index = (index, ⟨cache.entries ++ [(path, index)], cache.builds + 1⟩) := by
  simp [keep, h]

theorem get?_keep (h : cache.get? path = some kept) :
    (cache.keep other index).2.get? path = some kept := by
  rcases hget : cache.get? other with _ | existing
  · rw [keep_of_absent hget, get?, List.find?_append]
    obtain ⟨entry, hentry, rfl⟩ := Option.map_eq_some_iff.mp h
    rw [hentry]
    rfl
  · rw [keep_of_kept hget]
    exact h

theorem get?_keep_self [ReflBEq π] (cache : Cache π κ α) (path : π) (index : Index κ α) :
    (cache.keep path index).2.get? path = some (cache.keep path index).1 := by
  rcases hget : cache.get? path with _ | kept
  · have hnone : cache.entries.find? (fun entry => entry.1 == path) = none :=
      Option.map_eq_none_iff.mp hget
    simp [keep_of_absent hget, get?, List.find?_append, hnone]
  · rw [keep_of_kept hget]
    exact hget

theorem ne_of_mem_paths (h : cache.get? path = none) (hother : other ∈ cache.paths) :
    (other == path) = false := by
  obtain ⟨entry, hentry, rfl⟩ := List.mem_map.mp hother
  have hnone := List.find?_eq_none.mp (Option.map_eq_none_iff.mp h) entry hentry
  simpa using hnone

/-- All that the first cache keeps is kept by the second one, and unchanged. -/
def Within (cache later : Cache π κ α) : Prop :=
  ∀ path index, cache.get? path = some index → later.get? path = some index

namespace Within

variable {later last : Cache π κ α}

theorem refl (cache : Cache π κ α) : cache.Within cache :=
  fun _ _ h => h

theorem trans (h : cache.Within later) (hlast : later.Within last) : cache.Within last :=
  fun path index hget => hlast path index (h path index hget)

theorem keep (cache : Cache π κ α) (path : π) (index : Index κ α) :
    cache.Within (cache.keep path index).2 :=
  fun _ _ => get?_keep

end Within

/-- As many builds are counted as indexes are kept, and each of these has a path of its own. -/
structure Counted (cache : Cache π κ α) : Prop where
  builds_eq : cache.builds = cache.size
  distinct : cache.paths.Pairwise fun p q => (p == q) = false

theorem counted_empty : Counted (empty : Cache π κ α) :=
  ⟨rfl, .nil⟩

theorem Counted.keep (h : Counted cache) (path : π) (index : Index κ α) :
    Counted (cache.keep path index).2 := by
  rcases hget : cache.get? path with _ | kept
  · rw [keep_of_absent hget]
    constructor
    · simpa [size] using h.builds_eq
    · rw [paths, List.map_append, List.pairwise_append]
      refine ⟨h.distinct, List.pairwise_singleton .., ?_⟩
      intro other hother new hnew
      rw [List.map_singleton, List.mem_singleton] at hnew
      rw [hnew]
      exact ne_of_mem_paths hget hother
  · rw [keep_of_kept hget]
    exact h

end IndexedQuery.Cache
