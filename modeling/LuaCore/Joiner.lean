import LuaCore.Program.Operator

/-!
Concatenation of many values, one after the other, to either end.

A joiner holds bytes as long as all that came to it are strings and numbers, and so makes no string on
the way.  Any other value is concatenated with what has been joined so far, so that handlers see what
they would see if the values were concatenated in pairs.
-/

namespace LuaCore

/-- What has been joined: the bytes of strings and numbers, or a value. -/
inductive Joiner where
  | bytes (b : Bytes)
  | value (v : Value)
deriving DecidableEq, Repr

/-- The two ends. -/
inductive Joiner.End where
  | front
  | back
deriving DecidableEq, Repr

namespace Joiner

variable {β σ : Type}

/-- Nothing joined yet: the empty string. -/
def empty : Joiner := bytes []

/-- The bytes of a string or number; nothing for other values. -/
def plainBytes? : Value → StoreM β (Option Bytes)
  | .string h => some <$> Store.bytes h
  | .number n => pure (some n.text)
  | _ => pure none

/-- The bytes that have been joined; nothing if they are not those of a string or number. -/
def bytes? : Joiner → StoreM β (Option Bytes)
  | bytes b => pure (some b)
  | value v => plainBytes? v

/-- What has been joined, as a value. -/
def toValue : Joiner → StoreM β Value
  | bytes b => Store.newString b
  | value v => pure v

/-- Gives what has been joined, and goes on with it as a value. -/
def read (j : Joiner) : StoreM β (Joiner × Value) := do
  let v ← j.toValue
  return (value v, v)

/-- The old and the new in their order, with the new one at an end. -/
def End.order {α : Type} (e : End) (old new : α) : α × α :=
  match e with
  | front => (new, old)
  | back => (old, new)

/-- Joins a string or number as bytes; nothing if one of the two is something else. -/
def joinPlain? (e : End) (j : Joiner) (v : Value) : StoreM β (Option Joiner) := do
  if !(v.isString || v.isNumber) then return none
  match ← j.bytes? with
  | none => return none
  | some b => return (← plainBytes? v).map fun c => bytes ((e.order b c).1 ++ (e.order b c).2)

/-- Joins a value at an end.  Where a concatenation fails, what had been joined before is there as a
value. -/
def join (e : End) (j : Joiner) (v : Value) : Program β σ (Joiner × Except Error Unit) := do
  match ← Program.store (joinPlain? e j v) with
  | some k => return (k, .ok ())
  | none =>
    let acc ← Program.store j.toValue
    match ← (Program.concat (e.order acc v).1 (e.order acc v).2).attempt with
    | .ok w => return (value w, .ok ())
    | .error err => return (value acc, .error err)

end Joiner

end LuaCore
