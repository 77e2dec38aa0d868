import LuaCore.Number.Numeral
import LuaCore.Store.Basic
import LuaCore.Text.Quoted

/-!
Conversions between numbers and strings, and the texts of values.
-/

namespace LuaCore

namespace Store

variable {β : Type}

/-! ### Numbers -/

/-- The number that a value is, or that it denotes as a string. -/
def toNumber? : Value → StoreM β (Option Number)
  | .number n => pure (some n)
  | .string h => return Number.ofNumeral? (← bytes h)
  | _ => pure none

def toDouble? (v : Value) : StoreM β (Option Double) := do
  return (← toNumber? v).map Number.toDouble

/-- The integer equal to the number of a value. -/
def toWord? (v : Value) : StoreM β (Option Int64) := do
  return (← toNumber? v).bind Number.toWord?

/-! ### Strings -/

/-- The string that a value is, or the text of a number, which is interned. -/
def toString? : Value → StoreM β (Option Value)
  | .string h => pure (some (.string h))
  | .number n => some <$> newString n.text
  | _ => pure none

/-- The bytes of strings and numbers, one after the other; nothing if there is another value.  The
texts of numbers are interned on the way. -/
def joinBytes : List Value → StoreM β (Option Bytes)
  | [] => pure (some [])
  | v :: r => do
    match ← toString? v with
    | none => return none
    | some s =>
      let b ← bytes? s
      return (← joinBytes r).map fun c => b.getD [] ++ c

/-- The string of strings and numbers put together; nothing if there is another value. -/
def concatAll (vs : List Value) : StoreM β (Option Value) := do
  match ← joinBytes vs with
  | some b => some <$> newString b
  | none => return none

/-- The text of a string value, ill-formed parts replaced; nothing for other values. -/
def lossyText? (v : Value) : StoreM β (Option String) := do
  return (← bytes? v).map Utf8.lossyText

/-! ### Texts of values -/

/-- The address of an object, for a reader. -/
def addressText (h : Handle) : String :=
  let ds := Nat.toDigits 16 h.index
  "0x" ++ String.ofList (List.replicate (8 - ds.length) '0' ++ ds)

/-- The handle that gives an object its address; strings have none. -/
def addressOf? : Value → Option Handle
  | .table h | .function h | .userdata h | .thread h => some h
  | _ => none

/-- The text of a value without the events of metatables. -/
def display : Value → StoreM β String
  | .nil => pure "nil"
  | .bool b => pure (toString b)
  | .number n => pure (Bytes.toAscii n.text)
  | .string h => return Utf8.lossyText (← bytes h)
  | .function h => pure ("function: builtin: " ++ addressText h)
  | .table h => pure ("table: " ++ addressText h)
  | .userdata h => pure ("userdata: " ++ addressText h)
  | .thread h => pure ("thread: " ++ addressText h)

/-- The object of a value for a reader; nothing for values without one. -/
def describe? : Value → StoreM β (Option String)
  | .string h => return some (← bytes h).describe
  | .table h => return some (← table h).describe
  | .function h => return some (← function h).describe
  | .userdata h => return some (← userdata h).describe
  | .thread h => return some (← thread h).describe
  | _ => pure none

/-- The value that an error becomes when it is caught. -/
def errorValue : Error → StoreM β Value
  | .value v => pure v
  | e => newString (Bytes.ofString e.message)

end Store

end LuaCore
