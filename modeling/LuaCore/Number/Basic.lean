import LuaCore.Number.Rounding

/-!
Numbers: words and doubles under one roof.  A number keeps its kind, since the text of a number and
the kind of a result depend on it, but numbers of both kinds are compared by their exact values.
-/

namespace LuaCore

/-- A number is a 64-bit integer or a double. -/
inductive Number where
  | int (i : Int64)
  | float (x : Double)
deriving DecidableEq, Inhabited, Repr

namespace Number

/-- The number as a double, rounded if it is an integer that has no exact one. -/
def toDouble : Number → Double
  | int i => .ofWord i
  | float x => x

/-- The number as an integer, if that loses nothing. -/
def toWord? : Number → Option Int64
  | int i => some i
  | float x => x.toWord?

/-- The number as an integer without its fraction. -/
def truncate : Number → Int64
  | int i => i
  | float x => x.truncWord

def isInt : Number → Bool
  | int _ => true
  | float _ => false

/-! ### Comparison

An integer is below a double exactly when it is below the double's ceiling, and above it exactly when
it is above the double's floor, so the comparisons of an integer with a double compare words.  Where
the ceiling or the floor is no word, the sign of the double decides. -/

/-- Less than, on the exact values.  A NaN is in no order with anything. -/
def lt : Number → Number → Bool
  | int i, int j => decide (i < j)
  | float x, float y => x.lt y
  | int i, float y =>
    match y.ceilWord? with
    | some j => decide (i < j)
    | none => Double.zero.lt y
  | float x, int j =>
    match x.floorWord? with
    | some i => decide (i < j)
    | none => x.lt .zero

/-- Less than or equal, on the exact values. -/
def le : Number → Number → Bool
  | int i, int j => decide (i ≤ j)
  | float x, float y => x.le y
  | int i, float y =>
    match y.floorWord? with
    | some j => decide (i ≤ j)
    | none => Double.zero.lt y
  | float x, int j =>
    match x.ceilWord? with
    | some i => decide (i ≤ j)
    | none => x.lt .zero

/-- Equality of the exact values. -/
def eq : Number → Number → Bool
  | int i, int j => i == j
  | float x, float y => x.eq y
  | int i, float y => y.toWord? == some i
  | float x, int j => x.toWord? == some j

end Number

end LuaCore
