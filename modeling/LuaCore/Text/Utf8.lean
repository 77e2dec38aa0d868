import LuaCore.Bytes

/-!
UTF-8.

A machine reads one byte at a time.  It gives a character for every well-formed sequence and, for what
is ill-formed, one gap for each longest beginning of a sequence that could still have become
well-formed, or for a single byte that begins none.
-/

namespace LuaCore

namespace Utf8

/-- A sequence begun: how many bytes it still needs, the range of the next one, and the bits so far. -/
structure Begun where
  owed : Nat
  low : UInt8
  high : UInt8
  bits : Nat

/-- Where the machine stands: between characters, or inside one. -/
abbrev State := Option Begun

/-- What the first byte of a sequence gives: a character or a gap, or a sequence begun. -/
def first (b : UInt8) : List (Option Char) × State :=
  let start (owed : Nat) (low high : UInt8) (base : UInt8) : List (Option Char) × State :=
    ([], some ⟨owed, low, high, (b - base).toNat⟩)
  if b < 0x80 then ([some (Char.ofNat b.toNat)], none)
  else if b < 0xc2 then ([none], none)
  else if b < 0xe0 then start 1 0x80 0xbf 0xc0
  else if b = 0xe0 then start 2 0xa0 0xbf 0xe0
  else if b = 0xed then start 2 0x80 0x9f 0xe0
  else if b < 0xf0 then start 2 0x80 0xbf 0xe0
  else if b = 0xf0 then start 3 0x90 0xbf 0xf0
  else if b < 0xf4 then start 3 0x80 0xbf 0xf0
  else if b = 0xf4 then start 3 0x80 0x8f 0xf0
  else ([none], none)

/-- One byte.  A byte that the sequence begun cannot hold ends it as a gap and is read again as a first
byte. -/
def step : State → UInt8 → List (Option Char) × State
  | none, b => first b
  | some s, b =>
    if s.low ≤ b ∧ b ≤ s.high then
      let bits := s.bits * 64 + (b - 0x80).toNat
      if s.owed ≤ 1 then ([some (Char.ofNat bits)], none)
      else ([], some ⟨s.owed - 1, 0x80, 0xbf, bits⟩)
    else
      (none :: (first b).1, (first b).2)

/-- The characters and gaps from a state on. -/
def run : State → Bytes → List (Option Char)
  | none, [] => []
  | some _, [] => [none]
  | s, b :: r => (step s b).1 ++ run (step s b).2 r

/-- The characters of a byte string, and a gap for each ill-formed part. -/
def decode (b : Bytes) : List (Option Char) := run none b

/-- The text that a byte string encodes, if it is well-formed. -/
def text? (b : Bytes) : Option String :=
  let cs := decode b
  if cs.all Option.isSome then some (String.ofList (cs.filterMap id)) else none

/-- The text of a byte string, with a replacement character for each gap. -/
def lossyText (b : Bytes) : String :=
  String.ofList ((decode b).map fun c => c.getD (Char.ofNat 0xfffd))

end Utf8

end LuaCore
