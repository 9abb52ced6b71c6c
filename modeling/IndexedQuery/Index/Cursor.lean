import IndexedQuery.Index

namespace IndexedQuery

/-- A reader of one group of an index. Any number may be open, each with its own position. -/
structure Cursor (α : Type) where
  items : List α
  position : Nat
deriving Inhabited

namespace Cursor

variable {α : Type}

def start (items : List α) : Cursor α :=
  ⟨items, 0⟩

def rest (c : Cursor α) : List α :=
  c.items.drop c.position

def remaining (c : Cursor α) : Nat :=
  c.items.length - c.position

/-- The next item and the cursor behind it; at the end the cursor stays where it is. -/
def next (c : Cursor α) : Option α × Cursor α :=
  match c.items[c.position]? with
  | some item => (some item, { c with position := c.position + 1 })
  | none => (none, c)

def drain (c : Cursor α) : List α × Cursor α :=
  (c.rest, { c with position := c.items.length })

end Cursor

/-- The cursors open on an index, numbered from zero in the order in which they were opened. -/
structure Handles (κ α : Type) where
  index : Index κ α
  cursors : List (Cursor α)

namespace Handles

variable {κ α : Type}

inductive Use (κ : Type) where
  /-- Opens a cursor on the group of a key, an empty one if there is no such group. -/
  | openGroup (key : κ)
  /-- Opens a cursor on the group of a key if there is one. -/
  | openKnown (key : κ)
  | openEmpty
  /-- Opens a cursor at the position of another. -/
  | copy (handle : Nat)
  | next (handle : Nat)
  | rest (handle : Nat)
  | remaining (handle : Nat)
  | drain (handle : Nat)

inductive Answer (α : Type) where
  | opened (handle : Nat)
  | item (item : Option α)
  | items (items : List α)
  | count (n : Nat)
  | noHandle

def openCursor (h : Handles κ α) (c : Cursor α) : Answer α × Handles κ α :=
  (.opened h.cursors.length, { h with cursors := h.cursors ++ [c] })

/-- Reads through one cursor and puts it back as the reading left it. -/
def through (h : Handles κ α) (handle : Nat) (read : Cursor α → Answer α × Cursor α) :
    Answer α × Handles κ α :=
  match h.cursors[handle]? with
  | none => (.noHandle, h)
  | some c =>
      let (answer, c) := read c
      (answer, { h with cursors := h.cursors.set handle c })

def use [BEq κ] (h : Handles κ α) : Use κ → Answer α × Handles κ α
  | .openGroup key => h.openCursor (.start (h.index.lookup key))
  | .openKnown key =>
      match h.index.get? key with
      | none => (.noHandle, h)
      | some items => h.openCursor (.start items)
  | .openEmpty => h.openCursor (.start [])
  | .copy handle =>
      match h.cursors[handle]? with
      | none => (.noHandle, h)
      | some c => h.openCursor c
  | .next handle => h.through handle fun c => c.next.map .item id
  | .rest handle => h.through handle fun c => (.items c.rest, c)
  | .remaining handle => h.through handle fun c => (.count c.remaining, c)
  | .drain handle => h.through handle fun c => c.drain.map .items id

end Handles

end IndexedQuery
