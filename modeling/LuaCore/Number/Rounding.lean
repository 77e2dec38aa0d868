import LuaCore.Number.Double

/-!
Rounding to the nearest double.

`Double.ofRatio` is the one place where a number is rounded: to the nearest double, and to the one
with the even last bit when two are equally near.  Integers, decimals and the results of arithmetic
all go through it.
-/

namespace LuaCore

/-- The integer nearest to `num / den`, the even one of two. -/
def roundEven (num den : Nat) : Nat :=
  let q := num / den
  let r := num % den
  if 2 * r < den then q else if den < 2 * r then q + 1 else q + q % 2

namespace Double

/-- The largest `e` with `2 ^ e ≤ num / den`, for positive `num` and `den`. -/
def ratioLog2 (num den : Nat) : Int :=
  let e : Int := (num.log2 : Int) - den.log2
  if den * Nat.pow 2 e.toNat ≤ num * Nat.pow 2 (-e).toNat then e else e - 1

/-- The double nearest to `num / den`, under the given sign.

The last place of the result is worth `2 ^ e`, with `e` the least exponent at which the result has
fifty-three bits, or `-1074` where it has fewer.  A mantissa that is rounded up to `2 ^ 53` carries
into the exponent, and an exponent that is too large gives the infinity. -/
def ofRatio (negative : Bool) (num den : Nat) : Double :=
  if num = 0 then
    ofMagnitude negative 0
  else
    let e := max (ratioLog2 num den - 52) (-1074)
    let mantissa := roundEven (num * Nat.pow 2 (-e).toNat) (den * Nat.pow 2 e.toNat)
    ofMagnitude negative (min infinityMagnitude ((e + 1074).toNat * leadingBit + mantissa))

/-- The double nearest to a number of units. -/
def ofUnits (negative : Bool) (u : Nat) : Double := ofRatio negative u unitsPerOne

/-- The double nearest to an integer. -/
def ofInt (i : Int) : Double := ofRatio (decide (i < 0)) i.natAbs 1

/-- The double nearest to a word. -/
def ofWord (i : Int64) : Double := ofInt i.toInt

/-- The double nearest to `coefficient * 10 ^ exponent`, where the coefficient was written with
`width` digits.  Beyond `10 ^ 400` either way the answer is known without the power. -/
def ofDecimal (coefficient : Nat) (width : Nat) (exponent : Int) : Double :=
  if coefficient = 0 then zero
  else if 400 < exponent then infinity
  else if exponent + width < -400 then zero
  else ofRatio false (coefficient * Nat.pow 10 exponent.toNat) (Nat.pow 10 (-exponent).toNat)

/-- The power `2 ^ n`, or the infinity from `2 ^ 1024` on.  The powers with a negative exponent are
the reciprocals of those with a positive one, so they vanish from `2 ^ (-1024)` on. -/
def twoPow (n : Int) : Double :=
  if 1024 ≤ n then infinity
  else if n ≤ -1024 then zero
  else ofRatio false (Nat.pow 2 n.toNat) (Nat.pow 2 (-n).toNat)

end Double

end LuaCore
