import LuaCore.Number.Basic
import LuaCore.Bytes

/-!
The text of a number.

An integer is written in decimal.  A double is written with fourteen significant digits, rounded from
its exact value to the nearest, ties to the even digit, and without the zeros at the end of its
fraction.  From `10 ^ 14` on and below `10 ^ (-4)` the text is scientific; otherwise the exact value is
rounded once more, to as many decimals as make fourteen digits.  A text that would read as an integer
gets `.0` behind it, so that reading it gives a double again.
-/

namespace LuaCore

namespace Decimal

open Bytes (natText digit isDigit)

/-! ### Significant digits -/

/-- The number of significant digits of a double's text. -/
def precision : Nat := 14

/-- The largest `k` with `10 ^ k ≤ n`, for a positive `n`. -/
def log10 (n : Nat) : Nat := if n < 10 then 0 else log10 (n / 10) + 1

/-- The largest `k` with `10 ^ k ≤ num / den`, for positive `num` and `den`. -/
def ratioLog10 (num den : Nat) : Int :=
  if den ≤ num then log10 (num / den) else -((log10 ((den - 1) / num) : Int) + 1)

/-- The significant digits of a positive ratio, as a number of `precision` digits, and the exponent of
the first of them. -/
def significant (num den : Nat) : Nat × Int :=
  let k := ratioLog10 num den
  let shift := (precision : Int) - 1 - k
  let c := roundEven (num * Nat.pow 10 shift.toNat) (den * Nat.pow 10 (-shift).toNat)
  if c = Nat.pow 10 precision then (Nat.pow 10 (precision - 1), k + 1) else (c, k)

/-! ### Layout -/

/-- Digits with zeros before them, up to a width. -/
def padded (width n : Nat) : Bytes := List.replicate (width - (natText n).length) 48 ++ natText n

/-- A ratio rounded to a number of decimals, all of which are written. -/
def fixedText (num den decimals : Nat) : Bytes :=
  let c := roundEven (num * Nat.pow 10 decimals) den
  natText (c / Nat.pow 10 decimals) ++
    if decimals = 0 then [] else 46 :: padded decimals (c % Nat.pow 10 decimals)

/-- The digits of a number with a point behind the first of them. -/
def pointed (c : Nat) : Bytes := (natText c).take 1 ++ 46 :: (natText c).drop 1

/-- A text without a byte as often as it stands at the end. -/
def trimEnd (c : UInt8) (t : Bytes) : Bytes := (t.reverse.dropWhile (· == c)).reverse

/-- A text without the zeros at the end of its fraction, and without the point if nothing is left of
that. -/
def stripFraction (t : Bytes) : Bytes := if t.contains 46 then trimEnd 46 (trimEnd 48 t) else t

/-- The exponent of a scientific text: the mark, the sign, and at least two digits. -/
def exponentText (k : Int) : Bytes :=
  101 :: (if k < 0 then 45 else 43) :: (if k.natAbs < 10 then [48] else []) ++ natText k.natAbs

/-- The text of a positive ratio. -/
def ratioText (num den : Nat) : Bytes :=
  let (c, k) := significant num den
  if k < -4 ∨ (precision : Int) ≤ k then stripFraction (pointed c) ++ exponentText k
  else stripFraction (fixedText num den ((precision : Int) - 1 - k).toNat)

/-- The text of the absolute value of a double. -/
def absText (x : Double) : Bytes :=
  if x.isNaN then [110, 97, 110]
  else if x.isInfinite then [105, 110, 102]
  else if x.isZero then [48]
  else ratioText x.absUnits Double.unitsPerOne

/-- A text of digits alone, which would read as an integer, is marked as a double's. -/
def markDouble (t : Bytes) : Bytes := if t.all isDigit then t ++ [46, 48] else t

/-- The text of a double. -/
def doubleText (x : Double) : Bytes :=
  if x.isNegative then 45 :: markDouble (absText x) else markDouble (absText x)

end Decimal

/-- The text of a number. -/
def Number.text : Number → Bytes
  | .int i => Bytes.intText i.toInt
  | .float x => Decimal.doubleText x

end LuaCore
