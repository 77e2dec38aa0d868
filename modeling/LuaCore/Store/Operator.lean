import LuaCore.Number.Word
import LuaCore.Store.Conversion

/-!
Operators on numbers and strings, without events.

Where the operands are of kinds that an operator does not know, the answer is nothing, and it is for a
handler to give one.
-/

namespace LuaCore

/-! ### Arithmetic -/

/-- The operators that take numbers of both kinds. -/
inductive ArithOp where
  | add
  | sub
  | mul
  | div
  | mod
  | pow
  | idiv
deriving DecidableEq, Repr

/-- The operators that take integers. -/
inductive BitOp where
  | band
  | bor
  | bxor
  | shl
  | shr
deriving DecidableEq, Repr

/-- A binary operator. -/
inductive BinaryOp where
  | arith (op : ArithOp)
  | bit (op : BitOp)
deriving DecidableEq, Repr

namespace ArithOp

/-- The operator on doubles. -/
def onDoubles : ArithOp → Double → Double → Double
  | add, x, y => x.add y
  | sub, x, y => x.sub y
  | mul, x, y => x.mul y
  | div, x, y => x.div y
  | mod, x, y => x.floorMod y
  | pow, x, y => x.pow y
  | idiv, x, y => x.floorDiv y

/-- Division and powers give doubles, also of integers. -/
def givesDouble : ArithOp → Bool
  | div | pow => true
  | _ => false

/-- The operator on integers, if it does not give doubles. -/
def onWords (op : ArithOp) (a b : Int64) : Except Stop Int64 :=
  match op with
  | add => .ok (a + b)
  | sub => .ok (a - b)
  | mul => .ok (a * b)
  | mod =>
    if b = 0 then .error (.error (.runtime .moduloByZero)) else Stop.ofOption (Word.floorMod? a b)
  | idiv =>
    if b = 0 then .error (.error (.runtime .divisionByZero)) else Stop.ofOption (Word.floorDiv? a b)
  | div | pow => .error .undefined

/-- The operator on numbers: on integers if both are and it gives one, and else on doubles. -/
def apply (op : ArithOp) (m n : Number) : Except Stop Number :=
  match m, n with
  | .int a, .int b =>
    if op.givesDouble then .ok (.float (op.onDoubles (.ofWord a) (.ofWord b)))
    else .int <$> op.onWords a b
  | m, n => .ok (.float (op.onDoubles m.toDouble n.toDouble))

def event : ArithOp → Event
  | add => .add
  | sub => .sub
  | mul => .mul
  | div => .div
  | mod => .mod
  | pow => .pow
  | idiv => .idiv

end ArithOp

namespace BitOp

/-- The operator on integers. -/
def apply : BitOp → Int64 → Int64 → Except Stop Int64
  | band, a, b => .ok (a &&& b)
  | bor, a, b => .ok (a ||| b)
  | bxor, a, b => .ok (a ^^^ b)
  | shl, a, b => Stop.ofOption (Word.shiftLeft? a b)
  | shr, a, b => Stop.ofOption (Word.shiftRight? a b)

def event : BitOp → Event
  | band => .band
  | bor => .bor
  | bxor => .bxor
  | shl => .shl
  | shr => .shr

end BitOp

namespace BinaryOp

def isBitwise : BinaryOp → Bool
  | arith _ => false
  | bit _ => true

/-- The event that stands in for an operator. -/
def event : BinaryOp → Event
  | arith op => op.event
  | bit op => op.event

end BinaryOp

namespace Store

variable {β : Type}

/-- A binary operator on numbers and numerals. -/
def binary? (op : BinaryOp) (a b : Value) : StoreM β (Option Value) :=
  match op with
  | .arith op => do
    let m ← toNumber? a
    let n ← toNumber? b
    match m, n with
    | some m, some n => return some (.number (← ofOutcome (op.apply m n)))
    | _, _ => return none
  | .bit op => do
    let i ← toWord? a
    let j ← toWord? b
    match i, j with
    | some i, some j => return some (.int (← ofOutcome (op.apply i j)))
    | _, _ => return none

/-- The opposite of a number or numeral. -/
def negate? (v : Value) : StoreM β (Option Value) := do
  match ← toNumber? v with
  | some (.int i) => return some (.int (-i))
  | some (.float x) => return some (.float x.neg)
  | none => return none

/-- The complement of an integer. -/
def complement? (v : Value) : StoreM β (Option Value) := do
  return (← toWord? v).map fun i => .int (~~~i)

/-- The number of bytes of a string. -/
def stringLength? (v : Value) : StoreM β (Option Nat) := do
  return (← bytes? v).map List.length

/-! ### Comparison -/

/-- Less than, for two numbers or two strings. -/
def less? : Value → Value → StoreM β (Option Bool)
  | .number m, .number n => pure (some (m.lt n))
  | .string g, .string h => do
    let b ← bytes g
    let c ← bytes h
    return some (Bytes.lt b c)
  | _, _ => pure none

/-- Less than or equal, for two numbers or two strings. -/
def lessEq? : Value → Value → StoreM β (Option Bool)
  | .number m, .number n => pure (some (m.le n))
  | .string g, .string h => do
    let b ← bytes g
    let c ← bytes h
    return some (Bytes.le b c)
  | _, _ => pure none

end Store

namespace Value

/-- Values that are not equal by themselves and may be so by a handler: two tables, or two userdata. -/
def mayHandleEq : Value → Value → Bool
  | table g, table h => g != h
  | userdata g, userdata h => g != h
  | _, _ => false

end Value

end LuaCore
