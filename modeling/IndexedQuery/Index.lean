import IndexedQuery.Binary64

/-!
Indexes: the items of a collection grouped by a key. Keys are told apart by `==`; a group shows the
key that opened it and keeps its items in the order of the collection.
-/

namespace IndexedQuery

structure Index (κ α : Type) where
  /-- Each key once, in order of first occurrence, with the items under it. -/
  groups : List (κ × List α)
deriving Inhabited

/-- How the items of an index are spread over its keys. -/
structure IndexStats where
  total : Nat
  distinct : Nat
  largest : Nat
deriving DecidableEq

namespace IndexStats

def zero : IndexStats :=
  ⟨0, 0, 0⟩

def addGroup (s : IndexStats) (n : Nat) : IndexStats :=
  ⟨s.total + n, s.distinct + 1, max s.largest n⟩

/-- The expected number of items under a key. -/
def average (s : IndexStats) : Binary64 :=
  if s.distinct = 0 then .zero else .ofNat s.total / .ofNat s.distinct

end IndexStats

namespace Index

variable {κ α : Type}

def empty : Index κ α :=
  ⟨[]⟩

def stats (index : Index κ α) : IndexStats :=
  index.groups.foldl (fun s group => s.addGroup group.2.length) .zero

def size (index : Index κ α) : Nat :=
  index.stats.total

def keys (index : Index κ α) : List κ :=
  index.groups.map (·.1)

def keyCount (index : Index κ α) : Nat :=
  index.groups.length

def isEmpty (index : Index κ α) : Bool :=
  index.groups.isEmpty

variable [BEq κ]

/-- Appends an item to the group of its key, or opens a group for it. -/
def addTo (key : κ) (item : α) : List (κ × List α) → List (κ × List α)
  | [] => [(key, [item])]
  | (k, items) :: rest =>
      if k == key then (k, items ++ [item]) :: rest
      else (k, items) :: addTo key item rest

def add (index : Index κ α) (key : κ) (item : α) : Index κ α :=
  ⟨addTo key item index.groups⟩

/-- Groups items by key. The first item that fails, or whose key fails, decides the outcome, and no
item behind it is looked at. -/
def build {ε : Type} (items : List (Except ε α)) (key : α → Except ε κ) :
    Except ε (Index κ α) :=
  items.foldlM (fun index item => do
    let a ← item
    return index.add (← key a) a) empty

/-- The items under a key, if there are any. -/
def get? (index : Index κ α) (key : κ) : Option (List α) :=
  (index.groups.find? fun group => group.1 == key).map (·.2)

def lookup (index : Index κ α) (key : κ) : List α :=
  (index.get? key).getD []

def contains (index : Index κ α) (key : κ) : Bool :=
  index.groups.any fun group => group.1 == key

end Index

end IndexedQuery
