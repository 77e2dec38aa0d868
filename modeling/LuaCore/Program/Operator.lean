import LuaCore.Program.Basic
import LuaCore.Store.Metatable
import LuaCore.Store.Operator

/-!
Operators through the handlers of metatables.

An operator that does not know its operands asks for a handler, in the left operand first.  Without a
handler the error names the kinds of the operands.
-/

namespace LuaCore

namespace Store

variable {β : Type}

/-- The error of a binary operator without a handler. -/
def binaryError (op : BinaryOp) (a b : Value) : StoreM β Error := do
  let m ← toNumber? a
  let n ← toNumber? b
  if op.isBitwise && m.isSome && n.isSome then return .runtime .noInteger
  else return .type (.binary op.isBitwise a.kind b.kind)

/-- The error of a unary operator without a handler. -/
def unaryError (bitwise : Bool) (v : Value) : StoreM β Error := do
  let n ← toNumber? v
  if bitwise && n.isSome then return .runtime .noInteger
  else return .type (.unary bitwise v.kind)

end Store

namespace Program

variable {β σ : Type}

/-! ### Arithmetic -/

/-- A binary operator. -/
def arith (op : BinaryOp) (a b : Value) : Program β σ Value := do
  match ← store (Store.binary? op a b) with
  | some v => return v
  | none =>
    match ← store (Store.binaryHandler? a b op.event) with
    | some h => call h [a, b]
    | none => fail (← store (Store.binaryError op a b))

/-- The opposite.  A handler is given the operand twice. -/
def negate (v : Value) : Program β σ Value := do
  match ← store (Store.negate? v) with
  | some w => return w
  | none =>
    match ← store (Store.handler? v .unm) with
    | some h => call h [v, v]
    | none => fail (← store (Store.unaryError false v))

/-- The complement.  A handler is given the operand twice. -/
def complement (v : Value) : Program β σ Value := do
  match ← store (Store.complement? v) with
  | some w => return w
  | none =>
    match ← store (Store.handler? v .bnot) with
    | some h => call h [v, v]
    | none => fail (← store (Store.unaryError true v))

/-! ### Comparison -/

/-- Equality.  A handler is asked only about two tables or two userdata whose metatables hold the
same one. -/
def equals (a b : Value) : Program β σ Bool := do
  if a.rawEq b then return true
  if !a.mayHandleEq b then return false
  let ma ← store (Store.metatableOf a)
  let mb ← store (Store.metatableOf b)
  match ma, mb with
  | some ma, some mb =>
    let ha ← store (Store.field ma .eq)
    let hb ← store (Store.field mb .eq)
    if ha.isNil || !ha.rawEq hb then return false
    return (← call ha [a, b]).isTruthy
  | _, _ => return false

/-- The opposite of equality, under the same handler. -/
def notEquals (a b : Value) : Program β σ Bool := do return !(← equals a b)

/-- Less than. -/
def less (a b : Value) : Program β σ Bool := do
  match ← store (Store.less? a b) with
  | some r => return r
  | none =>
    match ← store (Store.binaryHandler? a b .lt) with
    | some h => return (← call h [a, b]).isTruthy
    | none => fail (.type (.compare a.kind b.kind))

/-- Less than or equal.  Without a handler of its own it is that `b` is not less than `a`, by the
handler found in `a` first. -/
def lessEq (a b : Value) : Program β σ Bool := do
  match ← store (Store.lessEq? a b) with
  | some r => return r
  | none =>
    match ← store (Store.binaryHandler? a b .le) with
    | some h => return (← call h [a, b]).isTruthy
    | none =>
      match ← store (Store.binaryHandler? a b .lt) with
      | some h => return !(← call h [b, a]).isTruthy
      | none => fail (.type (.compare a.kind b.kind))

/-- Greater than: the operands change places, for the handler and the error as well. -/
def greater (a b : Value) : Program β σ Bool := less b a

/-- Greater than or equal, likewise. -/
def greaterEq (a b : Value) : Program β σ Bool := lessEq b a

/-! ### Strings and lengths -/

/-- Concatenation. -/
def concat (a b : Value) : Program β σ Value := do
  match ← store (Store.concatAll [a, b]) with
  | some v => return v
  | none =>
    match ← store (Store.binaryHandler? a b .concat) with
    | some h => call h [a, b]
    | none => fail (.type (.concat a.kind b.kind))

/-- The length: of a string its bytes, of anything else what a handler says, and of a table without
one its border. -/
def length (v : Value) : Program β σ Value := do
  match ← store (Store.stringLength? v) with
  | some n => return .ofNat n
  | none =>
    match ← store (Store.handler? v .len) with
    | some h => call h [v]
    | none =>
      if v.isTable then return .ofNat (← store (Store.rawLen v))
      else fail (.type (.length v.kind))

/-- The text of an object under the name that its metatable gives it; nothing without a name. -/
def namedText? (v : Value) : Program β σ (Option String) := do
  match ← store (Store.handler? v .name) with
  | none => return none
  | some w =>
    match ← store (Store.lossyText? w), Store.addressOf? v with
    | some name, some h => return some (name ++ ": " ++ Store.addressText h)
    | _, _ => return none

/-- The text of a value, as a string: what a handler gives, the value itself if it is a string, or
else the text under its name, or without events. -/
def text (v : Value) : Program β σ Value := do
  match ← store (Store.handler? v .tostring) with
  | some h =>
    match ← store (Store.toString? (← call h [v])) with
    | some s => return s
    | none => fail (.runtime .noText)
  | none =>
    if v.isString then return v
    let s ← match ← namedText? v with
      | some s => pure s
      | none => store (Store.display v)
    store (Store.newString (Bytes.ofString s))

end Program

end LuaCore
