/-!
Double-precision numbers by their sixty-four bits. The lower sixty-three bits, the magnitude code,
count the magnitudes upwards from zero, so order and equality of numbers are order and equality of
integers, and rounding is integer rounding in units of the smallest positive number.
-/

namespace IndexedQuery

/-- A double-precision number. Bit patterns that denote the same number, the two zeros and the
various NaNs, stay apart here; `Binary64.rank` identifies them. -/
structure Binary64 where
  bits : UInt64
deriving DecidableEq, Inhabited

namespace Binary64

/-- The place value of the sign bit. -/
def signPlace : Nat := 0x8000000000000000

/-- The place value of the exponent field: the number of codes in one binade. -/
def binade : Nat := 0x10000000000000

/-- The magnitude code of infinity; every code above it is a NaN. -/
def infinityCode : Nat := 2047 * binade

/-- The position of `x`, sign dropped, in the sequence of all magnitudes. -/
def code (x : Binary64) : Nat :=
  x.bits.toNat % signPlace

def isNegative (x : Binary64) : Bool :=
  signPlace ≤ x.bits.toNat

def isNaN (x : Binary64) : Bool :=
  infinityCode < x.code

def isInfinite (x : Binary64) : Bool :=
  x.code == infinityCode

def isZero (x : Binary64) : Bool :=
  x.code == 0

def ofCode (negative : Bool) (code : Nat) : Binary64 :=
  ⟨.ofNat (code + if negative then signPlace else 0)⟩

def nan : Binary64 :=
  ofCode false (infinityCode + binade / 2)

def zero : Binary64 :=
  ofCode false 0

/-- An integer that orders the numbers: both zeros have rank zero, and all NaNs share one rank
above infinity. -/
def rank (x : Binary64) : Int :=
  if x.isNaN then signPlace
  else if x.isNegative then -x.code
  else x.code

/-- Numbers by size, a NaN equal to every NaN and above everything else. -/
instance : Ord Binary64 where
  compare x y := compare x.rank y.rank

/-- One bit pattern for each rank: zero loses its sign, a NaN its sign and payload. -/
def canonical (x : Binary64) : Binary64 :=
  if x.isNaN then nan
  else if x.isZero then zero
  else x

/-- The significand and the binary exponent of a finite magnitude `significand * 2 ^ exponent`, in
units of the smallest positive number. -/
def significand (x : Binary64) : Nat :=
  if x.code < binade then x.code else x.code % binade + binade

@[inherit_doc significand]
def exponent (x : Binary64) : Nat :=
  x.code / binade - 1

/-- A finite magnitude as a count of units, the unit being the smallest positive number. -/
def units (x : Binary64) : Nat :=
  x.significand <<< x.exponent

/-- How many units make one: the exponent of the smallest positive number is `-1074`. -/
def unitsPerOne : Nat := 1 <<< 1074

/-- `n / 2 ^ shift` rounded to the nearest integer, a half going to the even neighbour. -/
def roundShift (n shift : Nat) : Nat :=
  let quotient := n >>> shift
  let divisor := 1 <<< shift
  let twice := 2 * (n % divisor)
  if twice < divisor then quotient
  else if divisor < twice then quotient + 1
  else quotient + quotient % 2

/-- The code of the magnitude nearest to `n` units. From `2 ^ 53` units on a binade holds `2 ^ 52`
codes, and a significand that rounds up to the next power of two carries into the next binade. -/
def codeOfUnits (n : Nat) : Nat :=
  let shift := n.log2 - 52
  min infinityCode (shift * binade + roundShift n shift)

def ofUnits (negative : Bool) (n : Nat) : Binary64 :=
  ofCode negative (codeOfUnits n)

/-- The number nearest to `n`, ties going to the even significand. -/
def ofInt (n : Int) : Binary64 :=
  ofUnits (decide (n < 0)) (n.natAbs * unitsPerOne)

def ofNat (n : Nat) : Binary64 :=
  ofUnits false (n * unitsPerOne)

def toFloat (x : Binary64) : Float :=
  .ofBits x.bits

def ofFloat (x : Float) : Binary64 :=
  ⟨x.toBits⟩

instance : Add Binary64 where
  add x y := ofFloat (x.toFloat + y.toFloat)

instance : Sub Binary64 where
  sub x y := ofFloat (x.toFloat - y.toFloat)

instance : Mul Binary64 where
  mul x y := ofFloat (x.toFloat * y.toFloat)

instance : Div Binary64 where
  div x y := ofFloat (x.toFloat / y.toFloat)

/-- The exact remainder of the quotient truncated toward zero, with the sign of the dividend. No
rounding is needed: the remainder is a multiple of the finer of the two units of last place and
smaller than the coarser one's significand allows. -/
instance : Mod Binary64 where
  mod x y :=
    if x.isNaN || y.isNaN || x.isInfinite || y.isZero then nan
    else if y.isInfinite then x
    else ofUnits x.isNegative (x.units % y.units)

end Binary64

end IndexedQuery
