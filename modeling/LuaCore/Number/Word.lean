/-!
Arithmetic on 64-bit words: operations that are checked, division and remainder rounded to the floor, and
logical shifts for every count.

Sums, differences and products of words wrap, as `Int64` has them, and so does the one quotient that
is out of range, the least word divided by minus one.  Machine division rounds toward zero; here the
quotient is moved down by one, and the remainder by one divisor, when the remainder and the divisor
disagree in sign.

Operations that do not wrap are checked: they give nothing where the result is out of range, the divisor
is zero, or a word is shifted by as many places as it has.
-/

namespace LuaCore

namespace Word

/-- The word equal to an integer, if there is one. -/
def ofInt? (i : Int) : Option Int64 :=
  if Int64.minValue.toInt ≤ i ∧ i ≤ Int64.maxValue.toInt then some (Int64.ofInt i) else none

/-- The product of words without sign, unless it is too large for one. -/
def mulChecked? (a b : UInt64) : Option UInt64 :=
  if a.toNat * b.toNat < UInt64.size then some (a * b) else none

/-- The sum of words without sign, unless it is too large for one. -/
def addChecked? (a b : UInt64) : Option UInt64 :=
  if a.toNat + b.toNat < UInt64.size then some (a + b) else none

/-- The difference of words, unless it is out of range. -/
def subChecked? (a b : Int64) : Option Int64 := ofInt? (a.toInt - b.toInt)

/-- The opposite of a word, unless it is out of range. -/
def negChecked? (a : Int64) : Option Int64 := ofInt? (-a.toInt)

/-- The low bits of a word, as the count of a shift. -/
def places (n : Int64) : UInt32 := n.toUInt64.toUInt32

/-- A shift to the left by fewer than sixty-four places. -/
def shlChecked? (a : UInt64) (n : UInt32) : Option UInt64 :=
  if n < 64 then some (a <<< n.toUInt64) else none

/-- A shift to the right by fewer than sixty-four places. -/
def shrChecked? (a : UInt64) (n : UInt32) : Option UInt64 :=
  if n < 64 then some (a >>> n.toUInt64) else none

/-- A remainder that is to be moved by one divisor, because it has the other sign. -/
def disagrees (r b : Int64) : Bool := r != 0 && decide (r ^^^ b < 0)

/-- The quotient rounded to the floor, for a divisor other than zero. -/
def floorDiv? (a b : Int64) : Option Int64 :=
  if b = 0 then none
  else if disagrees (a % b) b then subChecked? (a / b) 1
  else some (a / b)

/-- The remainder that goes with `floorDiv?`: zero, or of the sign of the divisor. -/
def floorMod? (a b : Int64) : Option Int64 :=
  if b = 0 then none
  else if disagrees (a % b) b then some (a % b + b)
  else some (a % b)

/-- A logical shift to the left, or to the right for a negative count.  From sixty-four places on
nothing is left. -/
def shiftLeft? (a b : Int64) : Option Int64 :=
  if b ≤ -64 ∨ 64 ≤ b then some 0
  else if b < 0 then do
    let n ← negChecked? b
    return (← shrChecked? a.toUInt64 (places n)).toInt64
  else return (← shlChecked? a.toUInt64 (places b)).toInt64

/-- A logical shift to the right: one to the left by the opposite count, which wraps. -/
def shiftRight? (a b : Int64) : Option Int64 := shiftLeft? a (-b)

end Word

end LuaCore
