import LuaCore.Number.Word

/-!
Double-precision numbers by their bits.

A `Double` is its sixty-four bits.  The top bit is the sign, and the other sixty-three, read as a
natural number, are the magnitude: magnitudes are ordered as the absolute values they stand for, the
infinity is the largest that is a number, and everything above it is a NaN.  Every finite double is
a whole number of units, one unit being `2 ^ (-1074)`, so exact statements about doubles are
statements about integers.
-/

namespace LuaCore

/-- A double-precision number, held as its bits. -/
structure Double where
  bits : UInt64
deriving DecidableEq, Hashable, Inhabited, Repr

namespace Double

/-! ### Sign and magnitude -/

/-- The worth of the sign bit. -/
def signBit : Nat := 0x8000000000000000

/-- The worth of the lowest bit of the exponent, which is also the leading bit of a mantissa that has
all its bits. -/
def leadingBit : Nat := 0x10000000000000

/-- The magnitude of the two infinities. -/
def infinityMagnitude : Nat := 0x7ff0000000000000

/-- The sign bit. -/
def isNegative (x : Double) : Bool := decide (signBit ≤ x.bits.toNat)

/-- All bits but the sign. -/
def magnitude (x : Double) : Nat := x.bits.toNat % signBit

/-- The double with the given sign and magnitude. -/
def ofMagnitude (negative : Bool) (m : Nat) : Double :=
  ⟨UInt64.ofNat (m + if negative then signBit else 0)⟩

def zero : Double := ofMagnitude false 0

def one : Double := ofMagnitude false 0x3ff0000000000000

def infinity : Double := ofMagnitude false infinityMagnitude

/-- The positive quiet NaN. -/
def nan : Double := ofMagnitude false 0x7ff8000000000000

/-- The same magnitude under the other sign. -/
def neg (x : Double) : Double := ofMagnitude (!x.isNegative) x.magnitude

/-! ### Classes -/

def isNaN (x : Double) : Bool := decide (infinityMagnitude < x.magnitude)

def isInfinite (x : Double) : Bool := x.magnitude == infinityMagnitude

def isFinite (x : Double) : Bool := decide (x.magnitude < infinityMagnitude)

def isZero (x : Double) : Bool := x.magnitude == 0

/-! ### The exact value -/

/-- Every finite double is a whole number of units, and `unitsPerOne` of them make one. -/
def unitsPerOne : Nat := Nat.pow 2 1074

/-- The absolute value of a finite double in units. -/
def absUnits (x : Double) : Nat :=
  let fraction := x.magnitude % leadingBit
  match x.magnitude / leadingBit with
  | 0 => fraction
  | e + 1 => (leadingBit + fraction) * Nat.pow 2 e

/-- The value of a finite double in units. -/
def units (x : Double) : Int := if x.isNegative then -(x.absUnits : Int) else x.absUnits

/-- The largest integer not above a finite double. -/
def floorInt (x : Double) : Int := x.units.fdiv unitsPerOne

/-- The smallest integer not below a finite double. -/
def ceilInt (x : Double) : Int := -(-x.units).fdiv unitsPerOne

/-- A finite double without its fraction. -/
def truncInt (x : Double) : Int := x.units.tdiv unitsPerOne

/-- A finite double that has no fraction. -/
def isIntegral (x : Double) : Bool := x.isFinite && x.absUnits % unitsPerOne == 0

/-- The word equal to a double: the double has no fraction and is in the range of a word. -/
def toWord? (x : Double) : Option Int64 := if x.isIntegral then Word.ofInt? x.truncInt else none

/-- The word equal to the floor of a double: the double is finite and the floor is in the range of a
word. -/
def floorWord? (x : Double) : Option Int64 := if x.isFinite then Word.ofInt? x.floorInt else none

/-- The word equal to the ceiling of a double: the double is finite and the ceiling is in the range of
a word. -/
def ceilWord? (x : Double) : Option Int64 := if x.isFinite then Word.ofInt? x.ceilInt else none

/-- The word nearest to a double on its way to zero.  Doubles beyond the range give its ends, and a
NaN gives zero. -/
def truncWord (x : Double) : Int64 :=
  if x.isNaN then 0
  else if x.isInfinite then (if x.isNegative then Int64.minValue else Int64.maxValue)
  else if x.truncInt < Int64.minValue.toInt then Int64.minValue
  else if Int64.maxValue.toInt < x.truncInt then Int64.maxValue
  else Int64.ofInt x.truncInt

/-! ### Order -/

/-- The place of a double that is not a NaN in the order of doubles; the two zeros share theirs. -/
def rank (x : Double) : Int := if x.isNegative then -(x.magnitude : Int) else x.magnitude

/-- Less than.  A NaN is in no order with anything. -/
def lt (x y : Double) : Bool := !x.isNaN && !y.isNaN && decide (x.rank < y.rank)

/-- Less than or equal. -/
def le (x y : Double) : Bool := !x.isNaN && !y.isNaN && decide (x.rank ≤ y.rank)

/-- Equal as numbers: the zeros are equal, and a NaN is equal to nothing. -/
def eq (x y : Double) : Bool := !x.isNaN && !y.isNaN && decide (x.rank = y.rank)

end Double

end LuaCore
