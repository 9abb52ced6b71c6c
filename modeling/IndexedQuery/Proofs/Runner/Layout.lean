import IndexedQuery.Proofs.Runner.Tuples
import Mathlib.Data.List.Nodup

namespace IndexedQuery

variable {σ : Type} {rows : String → List Row}

def rootExprs (roots : List Path) : List Expr :=
  roots.map fun root => .path root.toRoot

/-- What is in the scope of a runner. -/
def sourcesOf (roots : List Path) (params : List String) : List Expr :=
  rootExprs roots ++ params.map .param

@[simp] theorem length_rootExprs (roots : List Path) : (rootExprs roots).length = roots.length := by
  simp [rootExprs]

theorem take_sourcesOf (roots : List Path) (params : List String) :
    (sourcesOf roots params).take roots.length = rootExprs roots := by
  simp [sourcesOf]

section Slots

variable {roots : List Path} {params : List String} {name : String} {slot : Nat}

theorem paramSlot?_sourcesOf (roots : List Path) (params : List String) (name : String) :
    paramSlot? (sourcesOf roots params) name =
      (params.findIdx? (· == name)).map (· + roots.length) := by
  have hroots : (rootExprs roots).findIdx? (·.isParam name) = none := by
    simp [List.findIdx?_eq_none_iff, rootExprs, Expr.isParam]
  rw [paramSlot?, sourcesOf, List.findIdx?_append, hroots, List.findIdx?_map, Option.none_or,
    length_rootExprs]
  rfl

theorem rootSlot?_sourcesOf (roots : List Path) (params : List String) (name : String) :
    rootSlot? (sourcesOf roots params) name = roots.findIdx? (·.rootName == name) := by
  have hparams : (params.map Expr.param).findIdx? (·.isRoot name) = none := by
    simp [List.findIdx?_eq_none_iff, Expr.isRoot]
  rw [rootSlot?, sourcesOf, List.findIdx?_append, hparams, rootExprs, List.findIdx?_map,
    Option.map_none, Option.or_none]
  rfl

theorem paramsFrom_sourcesOf (roots : List Path) (params : List String) :
    ParamsFrom roots.length (sourcesOf roots params) := by
  intro name slot hslot
  rw [paramSlot?_sourcesOf] at hslot
  obtain ⟨i, -, rfl⟩ := Option.map_eq_some_iff.mp hslot
  exact Nat.le_add_left roots.length i

theorem getElem?_sourcesOf {root : Path} {i : Nat} (hroot : roots[i]? = some root) :
    (sourcesOf roots params)[i]? = some (.path root.toRoot) := by
  rw [sourcesOf, List.getElem?_append_left]
  · simp [rootExprs, hroot]
  · simpa using (List.getElem?_eq_some_iff.mp hroot).1

theorem rootNames_sourcesOf (roots : List Path) (params : List String) :
    rootNames (sourcesOf roots params) = roots.map Path.rootName := by
  have hparams : (params.map Expr.param).filterMap Expr.rootName? = [] := by
    simp [List.filterMap_map, Function.comp_def, Expr.rootName?]
  rw [rootNames, sourcesOf, List.filterMap_append, hparams, List.append_nil, rootExprs,
    List.filterMap_map]
  exact congrFun List.filterMap_eq_map roots

end Slots

theorem walk_rootExprs_congr {α : Type} {roots : List Path}
    {resolve resolve' : Expr → List Binding → Run σ Elements}
    {leaf leaf' : List Row → Except Error (List α)} (args args' : List Value)
    (hresolve : ∀ i root, roots[i]? = some root → ∀ bound : List Row, bound.length = i →
      resolve (.path root.toRoot) (boundSoFar bound (roots.length - i) args) =
        resolve' (.path root.toRoot) (boundSoFar bound (roots.length - i) args'))
    (hleaf : ∀ tuple, tuple.length = roots.length → leaf tuple = leaf' tuple) :
    walk resolve leaf args [] (rootExprs roots) = walk resolve' leaf' args' [] (rootExprs roots) := by
  apply walk_congr
  · intro i source hsource bound hbound
    rw [rootExprs, List.getElem?_map] at hsource
    obtain ⟨root, hroot, rfl⟩ := Option.map_eq_some_iff.mp hsource
    rw [List.length_nil, Nat.zero_add] at hbound
    rw [length_rootExprs]
    exact hresolve i root hroot bound hbound
  · intro tuple htuple
    rw [List.length_nil, Nat.zero_add, length_rootExprs] at htuple
    exact hleaf tuple htuple

def Expr.rowsIn (rows : String → List Row) : Expr → List Row
  | .path p => rows p.rootName
  | _ => []

/-- The tuples of the product of the roots. -/
def product (rows : String → List Row) (roots : List Path) : List (List Row) :=
  tuples (roots.map fun root => rows root.rootName)

theorem product_eq_tuples (rows : String → List Row) (roots : List Path) :
    product rows roots = tuples ((rootExprs roots).map (Expr.rowsIn rows)) := by
  rw [product, rootExprs, List.map_map]
  rfl

theorem length_of_mem_product {roots : List Path} {tuple : List Row}
    (h : tuple ∈ product rows roots) : tuple.length = roots.length := by
  rw [length_of_mem_tuples h, List.length_map]

namespace Context

/-- Whether the lookups of the roots keep all rows of a tuple. -/
def keeps (c : Context σ) (roots : List Path) (args : List Value) (tuple : List Row) : Bool :=
  admitsAll c.admits (rootExprs roots) (bindingsOf tuple args) tuple

def kept (rows : String → List Row) (c : Context σ) (roots : List Path) (args : List Value) :
    List (List Row) :=
  (product rows roots).filter (c.keeps roots args)

/-- Some lookup leaves out a row of the tuple: the root at its position is registered under a key
that has a value, and the field of the row is another value. -/
def LeavesOut (c : Context σ) (roots : List Path) (args : List Value) (tuple : List Row) : Prop :=
  ∃ (i : Nat) (root : Path) (row : Row) (name : String) (k : Nat) (key : Evaluator) (v : Value),
    roots[i]? = some root ∧ tuple[i]? = some row ∧
    c.registration? (.path root.toRoot) = some ⟨.field root.rootName name k, key⟩ ∧
    key.evaluate (bindingsOf tuple args) = .ok v ∧ row.hasAt k v = false

variable {c : Context σ} {roots : List Path} {params : List String}
  {equalities : List (Expr × Expr)}

theorem keeps_iff {args : List Value} {tuple : List Row} :
    c.keeps roots args tuple = true ↔
      ∀ (i : Nat) (root : Path) (row : Row), roots[i]? = some root → tuple[i]? = some row →
        c.admits (.path root.toRoot) (bindingsOf tuple args) row = true := by
  rw [keeps, admitsAll, List.all_eq_true]
  constructor
  · intro h i root row hroot hrow
    apply h (.path root.toRoot, row)
    apply List.mem_of_getElem? (i := i)
    rw [List.getElem?_zip_eq_some]
    exact ⟨by simp [rootExprs, hroot], hrow⟩
  · rintro h ⟨expr, row⟩ hentry
    obtain ⟨i, hi⟩ := List.mem_iff_getElem?.mp hentry
    obtain ⟨hexpr, hrow⟩ := List.getElem?_zip_eq_some.mp hi
    rw [rootExprs, List.getElem?_map] at hexpr
    obtain ⟨root, hroot, rfl⟩ := Option.map_eq_some_iff.mp hexpr
    exact h i root row hroot hrow

theorem kept_of_unregistered (h : c.registrations = []) (rows : String → List Row)
    (roots : List Path) (args : List Value) : c.kept rows roots args = product rows roots := by
  apply List.filter_eq_self.mpr
  intro tuple _
  rw [keeps_iff]
  intro i root row _ _
  simp [admits, registration?, h]

theorem AllPinned.walked_eq_kept (hc : c.AllPinned rows equalities)
    (hsources : c.scope.sources = sourcesOf roots params) (args : List Value) :
    walked (fun source bindings => (source.rowsIn rows).filter (c.admits source bindings)) args []
        (rootExprs roots) =
      c.kept rows roots args := by
  rw [walked_eq_filter c.admits (Expr.rowsIn rows), kept, product_eq_tuples]
  · exact List.map_id _
  · intro i source hsource bindings bindings' hagree
    obtain ⟨root, hroot, rfl⟩ := by
      simpa [rootExprs] using hsource
    have hagree' : AgreeOutside i roots.length bindings bindings' := by
      simpa using hagree
    refine hc.admits_congr ?_ (hagree'.before ?_)
    · intro first hfirst
      rw [hsources] at hfirst
      exact rootSlot?_le (getElem?_sourcesOf hroot) hfirst
    · rw [hsources]
      exact paramsFrom_sourcesOf roots params

/-- A tuple under which the equalities hold is kept, if each root has a name of its own. -/
theorem AllPinned.keeps_of_equalUnder (hc : c.AllPinned rows equalities)
    (hsources : c.scope.sources = sourcesOf roots params)
    (hnodup : (roots.map Path.rootName).Nodup) {tuple : List Row} {args : List Value}
    (hequal : ∀ equality ∈ equalities,
      EqualUnder c.scope.sources (bindingsOf tuple args) equality) :
    c.keeps roots args tuple = true := by
  rw [keeps_iff]
  intro i root row hroot hrow
  apply hc.admits_of_equalUnder hequal
  intro slot hslot
  rw [hsources] at hslot
  rw [← rootNames_sourcesOf roots params] at hnodup
  rw [eq_of_rootSlot? hnodup (getElem?_sourcesOf hroot) hslot]
  obtain ⟨hlt, -⟩ := List.getElem?_eq_some_iff.mp hrow
  rw [bindingsOf, List.getD_eq_getElem?_getD, List.getElem?_append_left (by simpa using hlt)]
  simp [hrow]

theorem AllPinned.keeps_iff_not_leavesOut (hc : c.AllPinned rows equalities) {args : List Value}
    {tuple : List Row} : c.keeps roots args tuple = true ↔ ¬ c.LeavesOut roots args tuple := by
  rw [keeps_iff]
  constructor
  · rintro h ⟨i, root, row, name, k, key, v, hroot, hrow, hreg, hkey, hout⟩
    have hadmits := h i root row hroot hrow
    rw [admits_of_registered hreg, Registration.admits_of_key hkey, hout] at hadmits
    cases hadmits
  · intro h i root row hroot hrow
    rcases hreg : c.registration? (.path root.toRoot) with _ | r
    · exact admits_of_unregistered hreg _ row
    · obtain ⟨source, hpath, hpinned⟩ := hc.registration hreg
      cases hpath
      cases hpinned with
      | @intro _ name k slot expr key hslot hbound hcompile hall hmem =>
          rw [admits_of_registered hreg]
          rcases hkey : key.evaluate (bindingsOf tuple args) with e | v
          · exact Registration.admits_of_key_error hkey row
          · rw [Registration.admits_of_key hkey]
            rcases hhas : row.hasAt k v with _ | _
            · exact absurd ⟨i, root, row, name, k, key, v, hroot, hrow, hreg, hkey, hhas⟩ h
            · rfl

end Context

end IndexedQuery
