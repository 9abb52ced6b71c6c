import IndexedQuery.Source

/-!
What may be taken for granted of the passes over a source. The answers of a source depend on the
passes before, so the properties speak of all passes from some state on. Where the collections are
given as a function that may fail, it fails for the names of no collection.
-/

namespace IndexedQuery

variable {σ : Type}

namespace Source

/-- The state of a source after passes over some collections. -/
def after (source : Source σ) (s : σ) (passed : List String) : σ :=
  passed.foldl (fun s name => (source.pass s name).2) s

theorem after_append (source : Source σ) (s : σ) (passed more : List String) :
    source.after s (passed ++ more) = source.after (source.after s passed) more :=
  List.foldl_append

/-- From `s` on a pass may fail, as a whole or at some row, but one that shows no failure gives
the whole collection. -/
def Honest (source : Source σ) (rows : String → List Row) (s : σ) : Prop :=
  ∀ passed name found,
    (source.pass (source.after s passed) name).1 = .ok (found.map .ok) → found = rows name

/-- From `s` on every pass over one of the named collections gives all its rows, whichever of them
were passed over before. -/
def Yields (source : Source σ) (rows : String → List Row) (names : List String) (s : σ) : Prop :=
  ∀ passed : List String, (∀ name ∈ passed, name ∈ names) →
    ∀ name ∈ names, (source.pass (source.after s passed) name).1 = .ok ((rows name).map .ok)

variable {source : Source σ} {rows : String → List Row} {names : List String} {s : σ}

theorem map_ok_inj {found found' : List Row}
    (h : found.map (Except.ok : Row → Except Error Row) = found'.map .ok) : found = found' :=
  (List.map_inj_right fun _ _ => Except.ok.inj).mp h

theorem Honest.complete (h : source.Honest rows s) {name : String} {found : List Row}
    (hpass : (source.pass s name).1 = .ok (found.map .ok)) : found = rows name :=
  h [] name found hpass

theorem Honest.pass (h : source.Honest rows s) (name : String) :
    source.Honest rows (source.pass s name).2 :=
  fun passed => h (name :: passed)

theorem Yields.complete (h : source.Yields rows names s) {name : String} (hname : name ∈ names) :
    (source.pass s name).1 = .ok ((rows name).map .ok) :=
  h [] (by simp) name hname

theorem Yields.pass (h : source.Yields rows names s) {name : String} (hname : name ∈ names) :
    source.Yields rows names (source.pass s name).2 := by
  intro passed hpassed
  apply h (name :: passed)
  intro other hother
  rcases List.mem_cons.mp hother with rfl | hother
  · exact hname
  · exact hpassed other hother

section Collections

variable {collections : String → Except Error (List Row)}

/-- From `s` on a pass may fail, as a whole or at some row, but one that shows no failure is over a
collection and gives all of it. -/
def Discloses (source : Source σ) (collections : String → Except Error (List Row)) (s : σ) : Prop :=
  ∀ passed name found,
    (source.pass (source.after s passed) name).1 = .ok (found.map .ok) →
      collections name = .ok found

/-- From `s` on every pass over a collection gives all its rows, and over no collection it always
fails in the same way. -/
def Serves (source : Source σ) (collections : String → Except Error (List Row)) (s : σ) : Prop :=
  ∀ passed name,
    (source.pass (source.after s passed) name).1 = (collections name).map (·.map .ok)

/-- The rows of a collection; none where there is no collection. -/
def rowsIn (collections : String → Except Error (List Row)) (name : String) : List Row :=
  (collections name).toOption.getD []

theorem rowsIn_of_ok {name : String} {found : List Row} (h : collections name = .ok found) :
    rowsIn collections name = found := by
  rw [rowsIn, h]
  rfl

theorem eq_ok_of_map_ok {answer : Except Error (List Row)} {found : List Row}
    (h : answer.map (·.map (Except.ok : Row → Except Error Row)) = .ok (found.map .ok)) :
    answer = .ok found := by
  rcases answer with e | rows
  · cases h
  · rw [map_ok_inj (Except.ok.inj h)]

theorem Discloses.pass (h : source.Discloses collections s) (name : String) :
    source.Discloses collections (source.pass s name).2 :=
  fun passed => h (name :: passed)

theorem Discloses.complete (h : source.Discloses collections s) {name : String}
    {found : List Row} (hpass : (source.pass s name).1 = .ok (found.map .ok)) :
    collections name = .ok found :=
  h [] name found hpass

theorem Discloses.honest (h : source.Discloses collections s) :
    source.Honest (rowsIn collections) s :=
  fun passed name found hpass => (rowsIn_of_ok (h passed name found hpass)).symm

theorem Serves.pass (h : source.Serves collections s) (name : String) :
    source.Serves collections (source.pass s name).2 :=
  fun passed => h (name :: passed)

theorem Serves.answer (h : source.Serves collections s) (name : String) :
    (source.pass s name).1 = (collections name).map (·.map .ok) :=
  h [] name

theorem Serves.discloses (h : source.Serves collections s) :
    source.Discloses collections s := by
  intro passed name found hpass
  rw [h] at hpass
  exact eq_ok_of_map_ok hpass

theorem Serves.yields (h : source.Serves collections s)
    (hnames : ∀ name ∈ names, ∃ found, collections name = .ok found) :
    source.Yields (rowsIn collections) names s := by
  intro passed _ name hname
  obtain ⟨found, hfound⟩ := hnames name hname
  rw [h, rowsIn_of_ok hfound, hfound]
  rfl

end Collections

end Source

namespace Collections

def rowsOf (c : Collections) (name : String) : List Row :=
  (c.get? name).getD []

theorem rowsIn_rows (c : Collections) : Source.rowsIn c.rows = c.rowsOf := by
  funext name
  unfold Source.rowsIn Collections.rows rowsOf
  rcases c.get? name with _ | rows <;> rfl

theorem source_serves (c : Collections) : c.source.Serves c.rows () :=
  fun _ _ => rfl

theorem exists_rows (c : Collections) {names : List String}
    (h : ∀ name ∈ names, (c.get? name).isSome = true) :
    ∀ name ∈ names, ∃ found, c.rows name = .ok found := by
  intro name hname
  obtain ⟨rows, hrows⟩ := Option.isSome_iff_exists.mp (h name hname)
  exact ⟨rows, by simp [Collections.rows, hrows]⟩

theorem source_yields (c : Collections) {names : List String}
    (h : ∀ name ∈ names, (c.get? name).isSome = true) :
    c.source.Yields c.rowsOf names () := by
  rw [← rowsIn_rows]
  exact c.source_serves.yields (c.exists_rows h)

theorem source_honest (c : Collections) : c.source.Honest c.rowsOf () := by
  rw [← rowsIn_rows]
  exact c.source_serves.discloses.honest

end Collections

end IndexedQuery
