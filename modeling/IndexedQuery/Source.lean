import IndexedQuery.Row

/-!
Sources: where the rows of a collection come from. A pass over a collection may fail as a whole or
at single rows, and what it gives may depend on the passes before it.
-/

namespace IndexedQuery

/-- A pass over a collection: its rows in order, or an error in the place of a row. -/
abbrev Pass := List (Except Error Row)

structure Source (σ : Type) where
  pass : σ → String → Except Error Pass × σ

/-- Rows held in memory under the names of their collections. -/
structure Collections where
  entries : List (String × List Row)

namespace Collections

def empty : Collections :=
  ⟨[]⟩

/-- Adds a collection, or replaces the one of that name. -/
def insert (c : Collections) (name : String) (rows : List Row) : Collections :=
  ⟨(name, rows) :: c.entries.filter (·.1 != name)⟩

def ofList (l : List (String × List Row)) : Collections :=
  l.foldl (fun c (name, rows) => c.insert name rows) empty

def get? (c : Collections) (name : String) : Option (List Row) :=
  c.entries.lookup name

def rows (c : Collections) (name : String) : Except Error (List Row) :=
  match c.get? name with
  | some rows => .ok rows
  | none => .error (.unknownSource name)

/-- The source that gives every collection completely, at every pass. -/
def source (c : Collections) : Source Unit where
  pass _ name := ((c.rows name).map (·.map .ok), ())

end Collections

end IndexedQuery
