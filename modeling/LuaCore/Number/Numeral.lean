import LuaCore.Number.DoubleArith
import LuaCore.Number.Basic
import LuaCore.Bytes

/-!
Reading numerals.

A numeral may have blanks around it and a sign in front.  `0x` starts a hexadecimal one; every other
is decimal.  A numeral without point and exponent is an integer: hexadecimal ones wrap around, and
decimal ones that are out of range are read as doubles.  All others are doubles.  A decimal exponent
that has reached its bound takes no more digits, which shows only in a numeral with as many digits
before its exponent.
-/

namespace LuaCore

namespace Numeral

open Bytes (isDigit isHexDigit digitValue digitsValue)

/-! ### Parts of a numeral -/

/-- The blanks that may stand around a numeral. -/
def isBlank (c : UInt8) : Bool := c == 32 || (9 ≤ c && c ≤ 13)

def trim (b : Bytes) : Bytes :=
  ((b.dropWhile isBlank).reverse.dropWhile isBlank).reverse

/-- A sign, if there is one, and what follows; the first part says whether it was a minus. -/
def splitSign : Bytes → Bool × Bytes
  | 45 :: r => (true, r)
  | 43 :: r => (false, r)
  | r => (false, r)

/-- The digits in front of the point, those behind it, and the rest. -/
structure Mantissa where
  whole : Bytes
  fraction : Bytes
  rest : Bytes

/-- Splits off a mantissa whose digits are those of the given class. -/
def splitMantissa (isDigit : UInt8 → Bool) (b : Bytes) : Mantissa :=
  let whole := b.takeWhile isDigit
  match b.dropWhile isDigit with
  | 46 :: r => ⟨whole, r.takeWhile isDigit, r.dropWhile isDigit⟩
  | r => ⟨whole, [], r⟩

/-- The exponent that is all of `b`, under the given mark, which is a small letter; no exponent counts
as zero.  `value` gives the value of its digits. -/
def exponent? (mark : UInt8) (value : Bytes → Nat) : Bytes → Option Int
  | [] => some 0
  | c :: r =>
    if c == mark || c == mark - 32 then
      let (negative, ds) := splitSign r
      if ds.isEmpty || !ds.all isDigit then none
      else some (if negative then -(value ds : Int) else value ds)
    else
      none

/-- From here on the exponent of a decimal numeral takes no more digits. -/
def exponentBound : Nat := 0x10000

/-- The exponent of a decimal numeral by its digits: those behind the bound are passed over. -/
def boundedExponent (ds : Bytes) : Nat :=
  ds.foldl (fun e c => if e < exponentBound then e * 10 + digitValue c else e) 0

/-! ### Integers -/

/-- The number that decimal digits denote, as a word without sign.  The first product or sum that is too
large ends the reading. -/
def decimalWord? (ds : Bytes) : Option UInt64 :=
  ds.foldlM (fun n c => do Word.addChecked? (← Word.mulChecked? n 10) (.ofNat (digitValue c))) 0

/-- The largest absolute value of the words of a sign. -/
def limit (negative : Bool) : UInt64 := if negative then 0x8000000000000000 else 0x7fffffffffffffff

/-- The decimal integer of nonempty digits, if it is in range.  The opposite of the largest absolute
value is the least word, by the wrapping of the negation. -/
def decimalInt? (negative : Bool) (ds : Bytes) : Option Int64 := do
  let n ← decimalWord? ds
  if limit negative < n then none
  else some (if negative then -n.toInt64 else n.toInt64)

/-- The hexadecimal integer of nonempty digits, modulo `2 ^ 64`. -/
def hexInt (negative : Bool) (ds : Bytes) : Int64 :=
  let i := (ds.foldl (fun (n : UInt64) c => n * 16 + UInt64.ofNat (digitValue c)) 0).toInt64
  if negative then -i else i

/-! ### Doubles -/

def signed (negative : Bool) (x : Double) : Double := if negative then x.neg else x

/-- The double of a decimal numeral. -/
def decimalDouble? (b : Bytes) : Option Double :=
  let m := splitMantissa isDigit b
  let ds := m.whole ++ m.fraction
  if ds.isEmpty then none
  else (exponent? 101 boundedExponent m.rest).map fun e =>
    .ofDecimal (digitsValue 10 ds) ds.length (e - m.fraction.length)

/-- The mantissa of a hexadecimal numeral, a double throughout, rounded at each digit. -/
def hexMantissa (ds : Bytes) : Double :=
  ds.foldl (fun x c => (x.mul (.ofInt 16)).add (.ofInt (digitValue c))) .zero

/-- The double of a hexadecimal numeral.  Its exponent scales by a power of two. -/
def hexDouble? (b : Bytes) : Option Double :=
  let m := splitMantissa isHexDigit b
  let ds := m.whole ++ m.fraction
  if ds.isEmpty then none
  else (exponent? 112 (digitsValue 10) m.rest).map fun e =>
    (hexMantissa ds).mul (.twoPow (e - 4 * m.fraction.length))

/-! ### Numerals -/

def ofDecimal? (negative : Bool) (b : Bytes) : Option Number :=
  let double := (decimalDouble? b).map fun x => Number.float (signed negative x)
  if !b.isEmpty && b.all isDigit then
    match decimalInt? negative b with
    | some i => some (.int i)
    | none => double
  else
    double

def ofHex? (negative : Bool) (b : Bytes) : Option Number :=
  if !b.isEmpty && b.all isHexDigit then some (.int (hexInt negative b))
  else (hexDouble? b).map fun x => .float (signed negative x)

/-- The number of a numeral that has neither blanks around it nor a sign, which is given apart. -/
def ofUnsigned? (negative : Bool) : Bytes → Option Number
  | 48 :: 120 :: r => ofHex? negative r
  | 48 :: 88 :: r => ofHex? negative r
  | r => ofDecimal? negative r

end Numeral

/-- The number that a numeral denotes; nothing for any other byte string. -/
def Number.ofNumeral? (b : Bytes) : Option Number :=
  let (negative, body) := Numeral.splitSign (Numeral.trim b)
  Numeral.ofUnsigned? negative body

end LuaCore
