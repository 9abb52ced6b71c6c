import IndexedQuery.Value

/-!
Digests: the flat sequence of data that stands for a value when it is hashed. Equal values have the
same digest, and only they do.
-/

namespace IndexedQuery

inductive Datum where
  /-- Which constructor follows. -/
  | tag (n : Nat)
  | flag (b : Bool)
  | int (n : Int64)
  | word (bits : UInt64)
  | text (s : String)
  /-- How many parts follow, or the position of a field. -/
  | count (n : Nat)
deriving DecidableEq, Hashable

/-- A number enters in its canonical form, since several bit patterns denote equal numbers. -/
def Value.digest : Value → List Datum
  | .null => [.tag 0]
  | .boolean b => [.tag 1, .flag b]
  | .int64 n => [.tag 2, .int n]
  | .float64 x => [.tag 3, .word x.canonical.bits]
  | .string s => [.tag 4, .text s]
  | .dateTime ms => [.tag 5, .int ms]

instance : Hashable Value where
  hash v := hash v.digest

end IndexedQuery
