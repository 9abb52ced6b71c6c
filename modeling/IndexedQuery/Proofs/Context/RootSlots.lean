import IndexedQuery.Proofs.Context.Pinning
import IndexedQuery.Proofs.Evaluator.Dependencies

namespace IndexedQuery

/-- The names at the path leaves, as often as they occur. -/
def Expr.namesRead (e : Expr) : List String :=
  e.leaves.filterMap fun leaf => leaf.path?.map (·.rootName)

def IsRootSlot (sources : List Expr) (slot : Nat) : Prop :=
  ∃ name, sources[slot]? = some (.path (.root name))

theorem pairwise_idxOf_eraseDups (names : List String) :
    names.eraseDups.Pairwise fun a b => names.idxOf a < names.idxOf b := by
  induction names using List.reverseRecOn with
  | nil => exact .nil
  | append_singleton names name ih =>
      have hearlier : ∀ a ∈ names.eraseDups, (names ++ [name]).idxOf a = names.idxOf a :=
        fun a ha => List.idxOf_append_of_mem (List.mem_eraseDups.mp ha)
      have hkept : names.eraseDups.Pairwise fun a b =>
          (names ++ [name]).idxOf a < (names ++ [name]).idxOf b := by
        refine ih.imp_of_mem fun ha hb hlt => ?_
        rwa [hearlier _ ha, hearlier _ hb]
      rw [List.eraseDups_append]
      by_cases hname : name ∈ names
      · simpa [List.removeAll, hname] using hkept
      · have hnew : ([name].removeAll names).eraseDups = [name] := by
          simp [List.removeAll, hname, List.eraseDups_cons]
        rw [hnew]
        refine List.pairwise_append.mpr ⟨hkept, List.pairwise_singleton _ _, ?_⟩
        intro a ha b hb
        rw [List.mem_singleton.mp hb, hearlier a ha, List.idxOf_append_of_notMem hname]
        exact Nat.lt_add_right _ (List.idxOf_lt_length_of_mem (List.mem_eraseDups.mp ha))

theorem Expr.pairwise_rootsRead (e : Expr) :
    e.rootsRead.Pairwise fun a b => e.namesRead.idxOf a < e.namesRead.idxOf b :=
  pairwise_idxOf_eraseDups e.namesRead

theorem Expr.nodup_rootsRead (e : Expr) : e.rootsRead.Nodup := by
  refine e.pairwise_rootsRead.imp fun {a b} hlt heq => ?_
  rw [heq] at hlt
  exact Nat.lt_irrefl _ hlt

theorem Expr.mem_rootsRead_iff {e : Expr} {name : String} :
    name ∈ e.rootsRead ↔ ∃ p, .path p ∈ e.leaves ∧ p.rootName = name := by
  constructor
  · intro h
    rw [rootsRead, List.mem_eraseDups, List.mem_filterMap] at h
    obtain ⟨leaf, hleaf, hname⟩ := h
    obtain ⟨p, hp, rfl⟩ := Option.map_eq_some_iff.mp hname
    cases leaf with
    | path q =>
        cases hp
        exact ⟨p, hleaf, rfl⟩
    | constant v => cases hp
    | param name => cases hp
    | operation op args => cases hp
  · rintro ⟨p, hleaf, rfl⟩
    exact mem_rootsRead hleaf

section Slots

variable {sources : List Expr} {e : Expr} {evaluator : Evaluator} {name : String} {slot : Nat}

theorem isRootSlot_of_rootSlot? (h : rootSlot? sources name = some slot) :
    IsRootSlot sources slot :=
  ⟨name, getElem?_of_rootSlot? h⟩

theorem not_isRootSlot_of_paramSlot? (h : paramSlot? sources name = some slot) :
    ¬ IsRootSlot sources slot := by
  rintro ⟨root, hroot⟩
  rw [getElem?_of_paramSlot? h] at hroot
  cases hroot

theorem dependency_cases (h : compile sources e = .ok evaluator)
    (hslot : slot ∈ evaluator.dependencies) :
    (∃ name ∈ e.rootsRead, rootSlot? sources name = some slot) ∨
      ∃ name, .param name ∈ e.leaves ∧ paramSlot? sources name = some slot := by
  obtain ⟨leaf, hleaf, hleafSlot⟩ := (mem_dependencies_iff h).mp hslot
  cases leaf with
  | path p => exact .inl ⟨p.rootName, Expr.mem_rootsRead hleaf, hleafSlot⟩
  | param name => exact .inr ⟨name, hleaf, hleafSlot⟩
  | constant v => cases hleafSlot
  | operation op args => cases hleafSlot

theorem exists_slot_of_mem_rootsRead (h : compile sources e = .ok evaluator)
    (hname : name ∈ e.rootsRead) :
    ∃ slot ∈ evaluator.dependencies, rootSlot? sources name = some slot := by
  obtain ⟨p, hleaf, rfl⟩ := Expr.mem_rootsRead_iff.mp hname
  obtain ⟨slot, hslot⟩ := exists_rootSlot_of_compile h hleaf
  exact ⟨slot, (mem_dependencies_iff h).mpr ⟨.path p, hleaf, hslot⟩, hslot⟩

theorem root_dependency_iff (h : compile sources e = .ok evaluator) :
    slot ∈ evaluator.dependencies ∧ IsRootSlot sources slot ↔
      ∃ name ∈ e.rootsRead, rootSlot? sources name = some slot := by
  constructor
  · rintro ⟨hslot, hroot⟩
    rcases dependency_cases h hslot with hread | ⟨name, -, hparam⟩
    · exact hread
    · exact absurd hroot (not_isRootSlot_of_paramSlot? hparam)
  · rintro ⟨name, hname, hroot⟩
    obtain ⟨slot', hslot', hroot'⟩ := exists_slot_of_mem_rootsRead h hname
    rw [hroot] at hroot'
    cases hroot'
    exact ⟨hslot', isRootSlot_of_rootSlot? hroot⟩

theorem other_dependency_iff (h : compile sources e = .ok evaluator) :
    slot ∈ evaluator.dependencies ∧ ¬ IsRootSlot sources slot ↔
      ∃ name, .param name ∈ e.leaves ∧ paramSlot? sources name = some slot := by
  constructor
  · rintro ⟨hslot, hnot⟩
    rcases dependency_cases h hslot with ⟨name, -, hroot⟩ | hparam
    · exact absurd (isRootSlot_of_rootSlot? hroot) hnot
    · exact hparam
  · rintro ⟨name, hleaf, hparam⟩
    exact ⟨(mem_dependencies_iff h).mpr ⟨.param name, hleaf, hparam⟩,
      not_isRootSlot_of_paramSlot? hparam⟩

theorem boundBefore_iff_dependencies (h : compile sources e = .ok evaluator) :
    e.boundBefore sources slot = true ↔
      ∀ d ∈ evaluator.dependencies, IsRootSlot sources d → d < slot := by
  rw [Expr.boundBefore_iff]
  constructor
  · intro hbound d hd hroot
    obtain ⟨name, hname, hslot⟩ := (root_dependency_iff h).mp ⟨hd, hroot⟩
    obtain ⟨earlier, hlt, hearlier⟩ := hbound name hname
    rw [hslot] at hearlier
    cases hearlier
    exact hlt
  · intro hbefore name hname
    obtain ⟨d, hd, hslot⟩ := exists_slot_of_mem_rootsRead h hname
    exact ⟨d, hbefore d hd (isRootSlot_of_rootSlot? hslot), hslot⟩

end Slots

/-- The sources of an expression are listed by name once each, in the order in which they first
come. If it compiles, each has a slot, these are the slots of sources that it depends on, and all
others it depends on belong to its parameters. So by either account it reads earlier sources only or
does not. -/
theorem rootsRead_matches_dependencies (sources : List Expr) (e : Expr) :
    e.rootsRead.Nodup ∧
    (∀ name, name ∈ e.rootsRead ↔ ∃ p, .path p ∈ e.leaves ∧ p.rootName = name) ∧
    e.rootsRead.Pairwise (fun a b => e.namesRead.idxOf a < e.namesRead.idxOf b) ∧
    ∀ evaluator, compile sources e = .ok evaluator →
      (∀ name ∈ e.rootsRead, ∃ slot, rootSlot? sources name = some slot) ∧
      (∀ slot, slot ∈ evaluator.dependencies ∧ IsRootSlot sources slot ↔
        ∃ name ∈ e.rootsRead, rootSlot? sources name = some slot) ∧
      (∀ slot, slot ∈ evaluator.dependencies ∧ ¬ IsRootSlot sources slot ↔
        ∃ name, .param name ∈ e.leaves ∧ paramSlot? sources name = some slot) ∧
      ∀ slot, e.boundBefore sources slot = true ↔
        ∀ d ∈ evaluator.dependencies, IsRootSlot sources d → d < slot := by
  refine ⟨e.nodup_rootsRead, fun _ => Expr.mem_rootsRead_iff, e.pairwise_rootsRead, ?_⟩
  intro evaluator h
  refine ⟨?_, fun _ => root_dependency_iff h, fun _ => other_dependency_iff h,
    fun _ => boundBefore_iff_dependencies h⟩
  intro name hname
  obtain ⟨slot, -, hslot⟩ := exists_slot_of_mem_rootsRead h hname
  exact ⟨slot, hslot⟩

theorem rootsRead_kittenSought :
    let sources : List Expr :=
      [.param "x", .path (.root "cat"), .path (.root "dog"), .path (.root "kitten"), .param "x",
        .path (.root "cat")]
    ∃ evaluator, compile sources kittenSought = .ok evaluator ∧
      kittenSought.rootsRead = ["kitten", "cat"] ∧ evaluator.dependencies = [0, 1, 3] ∧
      (∃ name ∈ kittenSought.rootsRead, rootSlot? sources name = some 1) ∧
      (∃ name, .param name ∈ kittenSought.leaves ∧ paramSlot? sources name = some 0) ∧
      kittenSought.boundBefore sources 4 = true ∧ kittenSought.boundBefore sources 3 = false := by
  intro sources
  have hcompile : compile sources kittenSought = .ok _ := rfl
  obtain ⟨-, -, -, hslots⟩ := rootsRead_matches_dependencies sources kittenSought
  obtain ⟨-, hroots, hparams, hbefore⟩ := hslots _ hcompile
  refine ⟨_, hcompile, by decide, rfl, (hroots 1).mp ⟨by decide, "cat", rfl⟩,
    (hparams 0).mp ⟨by decide, ?_⟩, (hbefore 4).mpr ?_, ?_⟩
  · rintro ⟨name, hname⟩
    cases hname
  · intro d hd _
    have hthree : d ∈ [0, 1, 3] := hd
    simp only [List.mem_cons, List.not_mem_nil, or_false] at hthree
    omega
  · rw [Bool.eq_false_iff]
    intro h
    exact absurd ((hbefore 3).mp h 3 (by decide) ⟨"kitten", rfl⟩) (Nat.lt_irrefl 3)

end IndexedQuery
