import LuaCore.Number.Rounding

/-!
Arithmetic on doubles.

Sums, products, quotients and remainders are taken exactly, in units, and rounded once.  The cases
with infinities, NaNs and zeros come first.
-/

namespace LuaCore

namespace Double

/-- The infinity or the zero of a product or quotient takes the product of the signs. -/
def signOfProduct (x y : Double) : Bool := x.isNegative != y.isNegative

def add (x y : Double) : Double :=
  if x.isNaN || y.isNaN then nan
  else if x.isInfinite then
    (if y.isInfinite && x.isNegative != y.isNegative then nan else x)
  else if y.isInfinite then y
  else
    let s := x.units + y.units
    if s = 0 then ofMagnitude (x.isNegative && y.isNegative) 0
    else ofUnits (decide (s < 0)) s.natAbs

def sub (x y : Double) : Double := x.add y.neg

def mul (x y : Double) : Double :=
  if x.isNaN || y.isNaN then nan
  else if x.isInfinite || y.isInfinite then
    (if x.isZero || y.isZero then nan else ofMagnitude (signOfProduct x y) infinityMagnitude)
  else ofRatio (signOfProduct x y) (x.absUnits * y.absUnits) (unitsPerOne * unitsPerOne)

def div (x y : Double) : Double :=
  if x.isNaN || y.isNaN then nan
  else if x.isInfinite then
    (if y.isInfinite then nan else ofMagnitude (signOfProduct x y) infinityMagnitude)
  else if y.isInfinite then ofMagnitude (signOfProduct x y) 0
  else if y.isZero then
    (if x.isZero then nan else ofMagnitude (signOfProduct x y) infinityMagnitude)
  else ofRatio (signOfProduct x y) x.absUnits y.absUnits

/-- The remainder with the sign of `x`, exact. -/
def rem (x y : Double) : Double :=
  if x.isNaN || y.isNaN || x.isInfinite || y.isZero then nan
  else if y.isInfinite then x
  else ofUnits x.isNegative (x.absUnits % y.absUnits)

/-- The largest integral double not above `x`. -/
def floor (x : Double) : Double :=
  if x.isFinite && !x.isZero then ofInt x.floorInt else x

/-- The quotient, rounded down. -/
def floorDiv (x y : Double) : Double := (x.div y).floor

/-- The remainder with the sign of `y`: a remainder of the other sign is moved by one `y`. -/
def floorMod (x y : Double) : Double :=
  let r := x.rem y
  if !r.eq zero && zero.lt r != zero.lt y then r.add y else r

/-- The power, as the platform's mathematical library rounds it. -/
def pow (x y : Double) : Double :=
  ⟨((Float.ofBits x.bits).pow (Float.ofBits y.bits)).toBits⟩

end Double

end LuaCore
