/-!
Byte strings.

A string is any sequence of bytes; nothing asks that it be the encoding of a text.  The bytes with a
meaning for numerals are named here.
-/

namespace LuaCore

/-- A byte string. -/
abbrev Bytes := List UInt8

namespace Bytes

/-- The bytes that encode a text. -/
def ofString (s : String) : Bytes := s.toUTF8.data.toList

/-- The text of bytes that are all below 128. -/
def toAscii (b : Bytes) : String := String.ofList (b.map fun c => Char.ofNat c.toNat)

/-- Lexicographic order, byte by byte; a proper beginning is smaller. -/
def lt : Bytes → Bytes → Bool
  | [], [] => false
  | [], _ :: _ => true
  | _ :: _, [] => false
  | a :: as, b :: bs => decide (a < b) || (a == b && lt as bs)

/-- The order `lt` or equality. -/
def le (a b : Bytes) : Bool := !lt b a

/-! ### Digits -/

/-- The byte of a decimal digit. -/
def digit (d : Nat) : UInt8 := UInt8.ofNat (48 + d)

def isDigit (c : UInt8) : Bool := 48 ≤ c && c ≤ 57

def isHexDigit (c : UInt8) : Bool := isDigit c || (65 ≤ c && c ≤ 70) || (97 ≤ c && c ≤ 102)

/-- The value of a decimal or hexadecimal digit. -/
def digitValue (c : UInt8) : Nat :=
  if isDigit c then c.toNat - 48 else if 97 ≤ c then c.toNat - 87 else c.toNat - 55

/-- The number that digits denote in a base. -/
def digitsValue (base : Nat) (ds : Bytes) : Nat :=
  ds.foldl (fun n c => n * base + digitValue c) 0

/-- The decimal digits of a natural number. -/
def natText (n : Nat) : Bytes :=
  if n < 10 then [digit n] else natText (n / 10) ++ [digit (n % 10)]

/-- The decimal text of an integer. -/
def intText (i : Int) : Bytes :=
  if i < 0 then 45 :: natText i.natAbs else natText i.natAbs

end Bytes

end LuaCore
