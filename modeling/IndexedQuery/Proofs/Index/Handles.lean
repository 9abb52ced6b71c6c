import IndexedQuery.Elements

/-!
Cursors that are open at the same time. Each gives the items of its group from where it was opened,
one after another, tells how many are still to come, and takes no notice of what is done with the
others.
-/

namespace IndexedQuery

variable {κ α : Type}

namespace Cursor

/-- The cursor stands at an item or right behind the last one. -/
def Within (c : Cursor α) : Prop :=
  c.position ≤ c.items.length

theorem within_start (items : List α) : (start items).Within :=
  Nat.zero_le items.length

theorem remaining_eq (c : Cursor α) : c.remaining = c.rest.length :=
  List.length_drop.symm

theorem next_of_rest_nil {c : Cursor α} (h : c.rest = []) : c.next = (none, c) := by
  have hend : c.items[c.position]? = none := by
    rw [← List.head?_drop]
    exact congrArg List.head? h
  rw [next, hend]

theorem next_of_rest_cons {c : Cursor α} {item : α} {items : List α} (h : c.rest = item :: items) :
    c.next = (some item, { c with position := c.position + 1 }) := by
  have hitem : c.items[c.position]? = some item := by
    rw [← List.head?_drop]
    exact congrArg List.head? h
  rw [next, hitem]

theorem lt_of_rest_cons {c : Cursor α} {item : α} {items : List α} (h : c.rest = item :: items) :
    c.position < c.items.length := by
  have hlength := congrArg List.length h
  rw [← remaining_eq, remaining, List.length_cons] at hlength
  omega

theorem rest_behind {c : Cursor α} {item : α} {items : List α} (h : c.rest = item :: items) :
    ({ c with position := c.position + 1 } : Cursor α).rest = items := by
  rw [rest, ← List.tail_drop]
  exact congrArg List.tail h

end Cursor

namespace Handles

namespace Use

/-- The handle that a use reads through. To copy a handle is not to read through it. -/
def handle? : Use κ → Option Nat
  | .next handle | .rest handle | .remaining handle | .drain handle => some handle
  | .openGroup _ | .openKnown _ | .openEmpty | .copy _ => none

/-- What a use does with the cursor that it reads through. -/
def reading : Use κ → Cursor α → Answer α × Cursor α
  | .next _, c => c.next.map .item id
  | .rest _, c => (.items c.rest, c)
  | .remaining _, c => (.count c.remaining, c)
  | .drain _, c => c.drain.map .items id
  | _, c => (.noHandle, c)

/-- The items that a use takes out of the handle that it reads through. -/
def yields : Use κ → Answer α → List α
  | .next _, .item item => item.toList
  | .drain _, .items items => items
  | _, _ => []

/-- A reading stays with the items of the cursor, and what it takes out was first in line. -/
theorem reading_spec (u : Use κ) {c : Cursor α} (hc : c.Within) :
    (u.reading c).2.items = c.items ∧ (u.reading c).2.Within ∧
      u.yields (u.reading c).1 ++ (u.reading c).2.rest = c.rest := by
  cases u with
  | next handle =>
      rcases hrest : c.rest with _ | ⟨item, items⟩
      · rw [reading, Cursor.next_of_rest_nil hrest]
        exact ⟨rfl, hc, hrest⟩
      · rw [reading, Cursor.next_of_rest_cons hrest]
        refine ⟨rfl, Cursor.lt_of_rest_cons hrest, ?_⟩
        exact congrArg (item :: ·) (Cursor.rest_behind hrest)
  | drain handle =>
      refine ⟨rfl, Nat.le_refl c.items.length, ?_⟩
      simp [reading, yields, Cursor.drain, Cursor.rest]
  | _ => exact ⟨rfl, hc, rfl⟩

end Use

theorem set_cursors_self {h : Handles κ α} {handle : Nat} {c : Cursor α}
    (hc : h.cursors[handle]? = some c) :
    ({ h with cursors := h.cursors.set handle c } : Handles κ α) = h := by
  obtain ⟨hlt, rfl⟩ := List.getElem?_eq_some_iff.mp hc
  rw [List.set_getElem_self]

/-- No cursors are open yet. -/
def unopened (index : Index κ α) : Handles κ α :=
  ⟨index, []⟩

def AllWithin (h : Handles κ α) : Prop :=
  ∀ c ∈ h.cursors, c.Within

theorem unopened_allWithin (index : Index κ α) : (unopened index).AllWithin := by
  simp [AllWithin, unopened]

variable [BEq κ]

/-- The handles after some uses of them. -/
def after (h : Handles κ α) : List (Use κ) → Handles κ α
  | [] => h
  | u :: us => (h.use u).2.after us

/-- Uses of the handles one after another, each with its answer. -/
def transcript (h : Handles κ α) : List (Use κ) → List (Use κ × Answer α)
  | [] => []
  | u :: us => (u, (h.use u).1) :: (h.use u).2.transcript us

/-- The items taken out of a handle. -/
def yielded (handle : Nat) (uses : List (Use κ × Answer α)) : List α :=
  uses.flatMap fun use => if use.1.handle? = some handle then use.1.yields use.2 else []

/-- The cursor that a use opens. -/
def offered (h : Handles κ α) : Use κ → Option (Cursor α)
  | .openGroup key => some (.start (h.index.lookup key))
  | .openKnown key => (h.index.get? key).map .start
  | .openEmpty => some (.start [])
  | .copy handle => h.cursors[handle]?
  | .next _ | .rest _ | .remaining _ | .drain _ => none

/-! ## One use -/

section Step

variable {h : Handles κ α} {u : Use κ} {handle : Nat} {c : Cursor α}

theorem use_of_reads (hu : u.handle? = some handle) (hc : h.cursors[handle]? = some c) :
    h.use u = ((u.reading c).1, { h with cursors := h.cursors.set handle (u.reading c).2 }) := by
  have hthrough : h.use u = h.through handle u.reading := by
    cases u <;> cases hu <;> rfl
  rw [hthrough, through, hc]

theorem use_of_offered (hc : h.offered u = some c) : h.use u = h.openCursor c := by
  cases u with
  | openGroup key =>
      cases hc
      rfl
  | openKnown key =>
      obtain ⟨items, hitems, rfl⟩ := Option.map_eq_some_iff.mp hc
      rw [use, hitems]
  | openEmpty =>
      cases hc
      rfl
  | copy handle =>
      rw [offered] at hc
      rw [use, hc]
  | _ => cases hc

theorem use_cases (h : Handles κ α) (u : Use κ) :
    (∃ c, h.offered u = some c) ∨
      (∃ handle c, u.handle? = some handle ∧ h.cursors[handle]? = some c) ∨
        h.use u = (.noHandle, h) := by
  have hread : ∀ handle, u.handle? = some handle →
      (∃ handle c, u.handle? = some handle ∧ h.cursors[handle]? = some c) ∨
        h.through handle u.reading = (.noHandle, h) := by
    intro handle hu
    rcases hc : h.cursors[handle]? with _ | c
    · right
      rw [through, hc]
    · exact .inl ⟨handle, c, hu, hc⟩
  cases u with
  | openGroup key => exact .inl ⟨_, rfl⟩
  | openKnown key =>
      rcases hget : h.index.get? key with _ | items
      · right; right
        rw [use, hget]
      · exact .inl ⟨.start items, by rw [offered, hget]; rfl⟩
  | openEmpty => exact .inl ⟨_, rfl⟩
  | copy handle =>
      rcases hc : h.cursors[handle]? with _ | c
      · right; right
        rw [use, hc]
      · exact .inl ⟨c, hc⟩
  | next handle | rest handle | remaining handle | drain handle => exact .inr (hread handle rfl)

theorem index_use (h : Handles κ α) (u : Use κ) : (h.use u).2.index = h.index := by
  rcases h.use_cases u with ⟨c, hc⟩ | ⟨handle, c, hu, hc⟩ | hnone
  · rw [use_of_offered hc]
    rfl
  · rw [use_of_reads hu hc]
  · rw [hnone]

theorem getElem?_use_of_reads (hu : u.handle? = some handle) (hc : h.cursors[handle]? = some c) :
    (h.use u).2.cursors[handle]? = some (u.reading c).2 := by
  rw [use_of_reads hu hc]
  exact List.getElem?_set_self (List.getElem?_eq_some_iff.mp hc).1

theorem getElem?_use_of_not_reads (hu : u.handle? ≠ some handle)
    (hc : h.cursors[handle]? = some c) : (h.use u).2.cursors[handle]? = some c := by
  rcases h.use_cases u with ⟨new, hnew⟩ | ⟨other, c', hother, hc'⟩ | hnone
  · rw [use_of_offered hnew]
    exact (List.getElem?_append_left (List.getElem?_eq_some_iff.mp hc).1).trans hc
  · have hne : other ≠ handle := by
      rintro rfl
      exact hu hother
    rw [use_of_reads hother hc']
    exact (List.getElem?_set_ne hne).trans hc
  · rw [hnone]
    exact hc

theorem offered_within (hw : h.AllWithin) (hc : h.offered u = some c) : c.Within := by
  cases u with
  | openGroup key =>
      cases hc
      exact Cursor.within_start _
  | openKnown key =>
      obtain ⟨items, -, rfl⟩ := Option.map_eq_some_iff.mp hc
      exact Cursor.within_start items
  | openEmpty =>
      cases hc
      exact Cursor.within_start _
  | copy handle => exact hw c (List.mem_of_getElem? hc)
  | _ => cases hc

theorem AllWithin.use (hw : h.AllWithin) (u : Use κ) : (h.use u).2.AllWithin := by
  rcases h.use_cases u with ⟨new, hnew⟩ | ⟨handle, c, hu, hc⟩ | hnone
  · rw [use_of_offered hnew]
    intro c hc
    rcases List.mem_append.mp hc with hc | hc
    · exact hw c hc
    · rw [List.mem_singleton.mp hc]
      exact offered_within hw hnew
  · rw [use_of_reads hu hc]
    intro c' hc'
    rcases List.mem_or_eq_of_mem_set hc' with hc' | rfl
    · exact hw c' hc'
    · exact (u.reading_spec (hw c (List.mem_of_getElem? hc))).2.1
  · rw [hnone]
    exact hw

end Step

/-! ## Any number of uses -/

section Run

variable {h : Handles κ α} {us : List (Use κ)} {handle : Nat} {c : Cursor α}

theorem index_after (h : Handles κ α) (us : List (Use κ)) : (h.after us).index = h.index := by
  induction us generalizing h with
  | nil => rfl
  | cons u us ih => rw [after, ih, index_use]

theorem AllWithin.after (hw : h.AllWithin) (us : List (Use κ)) : (h.after us).AllWithin := by
  induction us generalizing h with
  | nil => exact hw
  | cons u us ih => exact ih (hw.use u)

theorem yielded_append_rest (hc : h.cursors[handle]? = some c) (hw : c.Within)
    (us : List (Use κ)) :
    ∃ c', (h.after us).cursors[handle]? = some c' ∧ c'.items = c.items ∧
      yielded handle (h.transcript us) ++ c'.rest = c.rest := by
  induction us generalizing h c with
  | nil => exact ⟨c, hc, rfl, rfl⟩
  | cons u us ih =>
      rw [after, transcript, yielded, List.flatMap_cons]
      by_cases hu : u.handle? = some handle
      · obtain ⟨hitems, hwithin, hyields⟩ := u.reading_spec hw
        obtain ⟨c', hc', hitems', hrest⟩ := ih (getElem?_use_of_reads hu hc) hwithin
        refine ⟨c', hc', hitems'.trans hitems, ?_⟩
        rw [if_pos hu, List.append_assoc, ← hyields, ← hrest, use_of_reads hu hc]
        rfl
      · rw [if_neg hu]
        exact ih (getElem?_use_of_not_reads hu hc) hw

theorem getElem?_after_of_not_reads (hc : h.cursors[handle]? = some c)
    (hus : ∀ u ∈ us, u.handle? ≠ some handle) : (h.after us).cursors[handle]? = some c := by
  induction us generalizing h with
  | nil => exact hc
  | cons u us ih =>
      obtain ⟨hu, hrest⟩ := List.forall_mem_cons.mp hus
      exact ih (getElem?_use_of_not_reads hu hc) hrest

/-- The uses of a handle are answered as if there were no others. The two sets of handles have
nothing in common but the cursor of this one. -/
theorem filter_transcript {h' : Handles κ α} (hc : h.cursors[handle]? = some c)
    (hc' : h'.cursors[handle]? = some c) (us : List (Use κ)) :
    (h.transcript us).filter (·.1.handle? = some handle) =
      h'.transcript (us.filter (·.handle? = some handle)) := by
  induction us generalizing h h' c with
  | nil => rfl
  | cons u us ih =>
      rw [transcript]
      by_cases hu : u.handle? = some handle
      · rw [List.filter_cons_of_pos (by simpa using hu), List.filter_cons_of_pos (by simpa using hu),
          transcript, ih (getElem?_use_of_reads hu hc) (getElem?_use_of_reads hu hc'),
          use_of_reads hu hc, use_of_reads hu hc']
      · rw [List.filter_cons_of_neg (by simpa using hu), List.filter_cons_of_neg (by simpa using hu)]
        exact ih (getElem?_use_of_not_reads hu hc) hc'

theorem getElem?_after_filter {h' : Handles κ α} (hc : h.cursors[handle]? = some c)
    (hc' : h'.cursors[handle]? = some c) (us : List (Use κ)) :
    (h.after us).cursors[handle]? =
      (h'.after (us.filter (·.handle? = some handle))).cursors[handle]? := by
  induction us generalizing h h' c with
  | nil => exact hc.trans hc'.symm
  | cons u us ih =>
      rw [after]
      by_cases hu : u.handle? = some handle
      · rw [List.filter_cons_of_pos (by simpa using hu), after]
        exact ih (getElem?_use_of_reads hu hc) (getElem?_use_of_reads hu hc')
      · rw [List.filter_cons_of_neg (by simpa using hu)]
        exact ih (getElem?_use_of_not_reads hu hc) hc'

end Run

section Items

variable {h : Handles κ α} {handle : Nat} {c : Cursor α}

theorem use_of_unmoved {u : Use κ} (hu : u.handle? = some handle)
    (hc : h.cursors[handle]? = some c) (hsame : (u.reading c).2 = c) :
    h.use u = ((u.reading c).1, h) := by
  rw [use_of_reads hu hc, hsame, set_cursors_self hc]

theorem use_next_of_rest_nil (hc : h.cursors[handle]? = some c) (hrest : c.rest = []) :
    h.use (.next handle) = (.item none, h) := by
  have hnext : (Use.next handle : Use κ).reading c = (.item none, c) := by
    rw [Use.reading, Cursor.next_of_rest_nil hrest]
    rfl
  rw [use_of_unmoved rfl hc (congrArg Prod.snd hnext), hnext]

theorem use_next_of_rest_cons {item : α} {items : List α} (hc : h.cursors[handle]? = some c)
    (hrest : c.rest = item :: items) :
    h.use (.next handle) =
      (.item (some item),
        { h with cursors := h.cursors.set handle { c with position := c.position + 1 } }) := by
  rw [use_of_reads rfl hc, Use.reading, Cursor.next_of_rest_cons hrest]
  rfl

theorem getElem?_use_next_of_rest_cons {item : α} {items : List α}
    (hc : h.cursors[handle]? = some c) (hrest : c.rest = item :: items) :
    (h.use (.next handle)).2.cursors[handle]? = some { c with position := c.position + 1 } := by
  rw [use_next_of_rest_cons hc hrest]
  exact List.getElem?_set_self (List.getElem?_eq_some_iff.mp hc).1

theorem transcript_nexts (hc : h.cursors[handle]? = some c) (n : Nat) :
    (h.transcript (.replicate n (.next handle))).map (·.2) =
      (List.range n).map fun k => .item c.rest[k]? := by
  induction n generalizing h c with
  | zero => rfl
  | succ n ih =>
      rw [List.replicate_succ, transcript, List.map_cons, List.range_succ_eq_map, List.map_cons,
        List.map_map]
      rcases hrest : c.rest with _ | ⟨item, items⟩
      · have hnext := use_next_of_rest_nil hc hrest
        rw [hnext, ih hc, hrest]
        rfl
      · have hnext := getElem?_use_next_of_rest_cons hc hrest
        rw [ih hnext, Cursor.rest_behind hrest, use_next_of_rest_cons hc hrest]
        rfl

theorem after_nexts (hc : h.cursors[handle]? = some c) (hw : c.Within) :
    h.after (.replicate c.rest.length (.next handle)) =
      { h with cursors := h.cursors.set handle { c with position := c.items.length } } := by
  generalize hn : c.rest.length = n
  induction n generalizing h c with
  | zero =>
      have hend : c.items.length = c.position := by
        rw [← Cursor.remaining_eq, Cursor.remaining] at hn
        unfold Cursor.Within at hw
        omega
      rw [hend]
      exact (set_cursors_self hc).symm
  | succ n ih =>
      obtain ⟨item, items, hrest⟩ := List.exists_cons_of_length_eq_add_one hn
      have hnext := getElem?_use_next_of_rest_cons hc hrest
      have hlength : ({ c with position := c.position + 1 } : Cursor α).rest.length = n := by
        rw [Cursor.rest_behind hrest]
        rw [hrest] at hn
        exact Nat.succ.inj hn
      rw [List.replicate_succ, after, ih hnext (Cursor.lt_of_rest_cons hrest) hlength,
        use_next_of_rest_cons hc hrest, List.set_set]

theorem use_drain_eq_nexts (hc : h.cursors[handle]? = some c) (hw : c.Within) :
    h.use (.drain handle) =
      (.items c.rest, h.after (.replicate c.rest.length (.next handle))) := by
  rw [after_nexts hc hw]
  exact use_of_reads rfl hc

end Items

/-- What an open handle does for whoever holds it, `c` being its cursor now. Whatever is done with
the handles, no item is lost to it or comes twice, and what others do makes no difference to it. -/
structure Dependable (h : Handles κ α) (handle : Nat) (c : Cursor α) : Prop where
  within : c.position ≤ c.items.length
  rest_eq : h.use (.rest handle) = (.items c.rest, h)
  remaining_eq : h.use (.remaining handle) = (.count c.rest.length, h)
  nexts_eq : ∀ n, (h.transcript (.replicate n (.next handle))).map (·.2) =
    (List.range n).map fun k => .item c.rest[k]?
  drain_eq : h.use (.drain handle) =
    (.items c.rest, h.after (.replicate c.rest.length (.next handle)))
  lossless : ∀ us, ∃ c', (h.after us).cursors[handle]? = some c' ∧ c'.items = c.items ∧
    yielded handle (h.transcript us) ++ c'.rest = c.rest
  exhausted : c.rest = [] → ∀ us, (h.after us).use (.next handle) = (.item none, h.after us)
  undisturbed : ∀ us, (∀ u ∈ us, u.handle? ≠ some handle) →
    (h.after us).cursors[handle]? = some c
  alone : ∀ us,
    (h.transcript us).filter (·.1.handle? = some handle) =
        h.transcript (us.filter (·.handle? = some handle)) ∧
      (h.after us).cursors[handle]? =
        (h.after (us.filter (·.handle? = some handle))).cursors[handle]?

theorem dependable {h : Handles κ α} (hw : h.AllWithin) {handle : Nat} {c : Cursor α}
    (hc : h.cursors[handle]? = some c) : h.Dependable handle c := by
  have hwithin : c.Within := hw c (List.mem_of_getElem? hc)
  refine ⟨hwithin, use_of_unmoved rfl hc rfl, ?_, transcript_nexts hc, use_drain_eq_nexts hc hwithin,
    yielded_append_rest hc hwithin, ?_, fun _ => getElem?_after_of_not_reads hc,
    fun us => ⟨filter_transcript hc hc us, getElem?_after_filter hc hc us⟩⟩
  · rw [use_of_unmoved rfl hc rfl, Use.reading, Cursor.remaining_eq]
  · intro hrest us
    obtain ⟨c', hc', -, hyielded⟩ := yielded_append_rest hc hwithin us
    rw [hrest] at hyielded
    exact use_next_of_rest_nil hc' (List.append_eq_nil_iff.mp hyielded).2

end Handles

/-! ## Elements -/

namespace Elements

/-- Readings give these rows one after another, none of them an error, and nothing behind the last
one. At every moment the number of those to come is told. -/
structure Gives (e : Elements) (rows : List Row) : Prop where
  taken : ∀ n, (e.take n).1 = (rows.take n).map .ok
  left : ∀ n, (e.take n).2.toPass = (rows.drop n).map .ok
  remaining : ∀ n, (e.take n).2.remaining = (rows.drop n).length
  next : ∀ n, (e.take n).2.next.1 = rows[n]?.map .ok
  within : ∀ n c, (e.take n).2 = .indexed c → c.position ≤ c.items.length

theorem take_indexed (n : Nat) {c : Cursor Row} (hw : c.Within) :
    ∃ c', (indexed c).take n = ((c.rest.take n).map .ok, .indexed c') ∧ c'.Within ∧
      c'.rest = c.rest.drop n := by
  induction n generalizing c with
  | zero => exact ⟨c, rfl, hw, rfl⟩
  | succ n ih =>
      rcases hrest : c.rest with _ | ⟨row, rows⟩
      · refine ⟨c, ?_, hw, hrest⟩
        rw [take, next, Cursor.next_of_rest_nil hrest]
        rfl
      · have hnext : (indexed c).next =
            (some (.ok row), .indexed { c with position := c.position + 1 }) := by
          rw [next, Cursor.next_of_rest_cons hrest]
          rfl
        obtain ⟨c', htake, hwithin, hdrop⟩ :=
          ih (c := { c with position := c.position + 1 }) (Cursor.lt_of_rest_cons hrest)
        rw [Cursor.rest_behind hrest] at htake hdrop
        refine ⟨c', ?_, hwithin, hdrop⟩
        simp only [take, hnext, htake]
        rfl

theorem indexed_gives {c : Cursor Row} (hw : c.Within) : (indexed c).Gives c.rest := by
  have htake := fun n => take_indexed n hw
  constructor
  · intro n
    obtain ⟨c', h, -, -⟩ := htake n
    rw [h]
  · intro n
    obtain ⟨c', h, -, hrest⟩ := htake n
    rw [h, ← hrest]
    rfl
  · intro n
    obtain ⟨c', h, -, hrest⟩ := htake n
    rw [h, ← hrest]
    exact Cursor.remaining_eq c'
  · intro n
    obtain ⟨c', h, -, hrest⟩ := htake n
    rw [h, ← List.head?_drop, ← hrest, next]
    rcases hrest' : c'.rest with _ | ⟨row, rows⟩
    · rw [Cursor.next_of_rest_nil hrest']
      rfl
    · rw [Cursor.next_of_rest_cons hrest']
      rfl
  · intro n c'' hc''
    obtain ⟨c', h, hwithin, -⟩ := htake n
    rw [h] at hc''
    cases hc''
    exact hwithin

theorem empty_gives : empty.Gives [] := by
  have htake : ∀ n, empty.take n = ([], empty) := by
    intro n
    cases n <;> rfl
  constructor <;> intro n <;> simp [htake, toPass, Elements.remaining, Elements.next]

end Elements

namespace Handles

/-- Handles on an index leave it as it is. From where it is opened, a handle gives the rest of its
group to the last item, and it can be depended on whatever the handles were and are used for. The
same goes for the rows of an index on their way to whoever reads them. -/
theorem all_dependable [BEq κ] (index : Index κ α) (us : List (Use κ)) :
    let h := (unopened index).after us
    h.index = index ∧
    (∀ u c, h.offered u = some c →
      (h.use u).1 = .opened h.cursors.length ∧
      ∀ vs, ∃ c', ((h.use u).2.after vs).cursors[h.cursors.length]? = some c' ∧
        c'.items = c.items ∧
        yielded h.cursors.length ((h.use u).2.transcript vs) ++ c'.rest = c.rest) ∧
    (∀ handle c, h.cursors[handle]? = some c → h.Dependable handle c) ∧
    (∀ (rows : Index κ Row) (handle : Nat) (c : Cursor Row),
      ((unopened rows).after us).cursors[handle]? = some c → (Elements.indexed c).Gives c.rest) ∧
    Elements.empty.Gives [] := by
  intro h
  have hw : h.AllWithin := (unopened_allWithin index).after us
  refine ⟨index_after _ us, ?_, fun _ _ hc => dependable hw hc, ?_, Elements.empty_gives⟩
  · intro u c hc
    have hwithin : c.Within := offered_within hw hc
    rw [use_of_offered hc]
    exact ⟨rfl, yielded_append_rest List.getElem?_concat_length hwithin⟩
  · intro rows handle c hc
    exact Elements.indexed_gives ((unopened_allWithin rows).after us c (List.mem_of_getElem? hc))

theorem all_dependable_drainedAndCopied :
    let rows : List Row := [⟨1, [.int64 5]⟩, ⟨2, [.int64 5]⟩, ⟨3, [.int64 5]⟩]
    let index : Index Nat Row := ⟨[(5, rows), (7, [⟨4, [.int64 7]⟩])]⟩
    let us : List (Use Nat) := [.openGroup 5, .next 0, .copy 0, .drain 0]
    let vs : List (Use Nat) := [.next 1, .next 2, .next 0, .remaining 1]
    let h := (unopened index).after us
    (h.transcript (.openKnown 7 :: vs)).map (·.2) =
      [.opened 2, .item rows[1]?, .item (some ⟨4, [.int64 7]⟩), .item none, .count 1] ∧
    (∃ c, ((h.use (.openKnown 7)).2.after vs).cursors[2]? = some c ∧
      yielded 2 ((h.use (.openKnown 7)).2.transcript vs) ++ c.rest = [⟨4, [.int64 7]⟩]) ∧
    (h.after vs).use (.next 0) = (.item none, h.after vs) ∧
    (h.after [.next 0, .rest 0]).cursors[1]? = some ⟨rows, 1⟩ ∧
    (Elements.indexed ⟨rows, 1⟩).Gives (rows.drop 1) := by
  intro rows index us vs h
  obtain ⟨-, hopened, hdependable, helements, -⟩ := all_dependable index us
  obtain ⟨-, hexact⟩ := hopened (.openKnown 7) ⟨[⟨4, [.int64 7]⟩], 0⟩ rfl
  obtain ⟨c, hc, -, hyielded⟩ := hexact vs
  have hstate : h = ⟨index, [⟨rows, 3⟩, ⟨rows, 1⟩]⟩ := rfl
  refine ⟨by rw [hstate]; rfl, ⟨c, hc, hyielded⟩, (hdependable 0 ⟨rows, 3⟩ rfl).exhausted rfl vs,
    (hdependable 1 ⟨rows, 1⟩ rfl).undisturbed _ ?_, helements index 1 ⟨rows, 1⟩ rfl⟩
  simp [Use.handle?]

end Handles

end IndexedQuery
