import IndexedQuery.Source

namespace IndexedQuery

/-- A failure to come when a collection is read. -/
structure Fault where
  collection : String
  /-- The row that cannot be read; the whole collection if there is none. -/
  position? : Option Nat
  message : String
  /-- How many more passes the fault strikes; all of them if there is no number. -/
  uses? : Option Nat

namespace Fault

def isDue (f : Fault) (collection : String) : Bool :=
  f.collection == collection && f.uses? != some 0

def spend (f : Fault) : Fault :=
  { f with uses? := f.uses?.map (· - 1) }

/-- The first fault due for a collection, and the schedule after it has struck. -/
def strike (collection : String) : List Fault → Option Fault × List Fault
  | [] => (none, [])
  | f :: fs =>
      if f.isDue collection then (some f, f.spend :: fs)
      else
        let (struck, fs) := strike collection fs
        (struck, f :: fs)

/-- The pass over `rows` when the fault strikes. A position behind the last row does no harm. -/
def apply (f : Fault) (rows : List Row) : Except Error Pass :=
  let failure := Error.source f.collection f.message
  match f.position? with
  | none => .error failure
  | some k => .ok ((rows.map .ok).set k (.error failure))

end Fault

/-- The source of some collections whose passes fail as the schedule says. -/
def Collections.faultySource (c : Collections) : Source (List Fault) where
  pass faults name :=
    match c.rows name with
    | .error e => (.error e, faults)
    | .ok rows =>
        match Fault.strike name faults with
        | (some f, faults) => (f.apply rows, faults)
        | (none, faults) => (.ok (rows.map .ok), faults)

end IndexedQuery
