import LuaCore.Value

/-!
The keys of tables.

Values that are equal as numbers address the same entry, so a value is brought into a normal form
before it is used as a key: a double that is equal to an integer becomes that integer.  Nil and NaN
are no keys.
-/

namespace LuaCore

/-- The normal form of a value as a key. -/
inductive Key where
  | int (i : Int64)
  | float (x : Double)
  | bool (b : Bool)
  | string (h : Handle)
  | table (h : Handle)
  | function (h : Handle)
  | userdata (h : Handle)
  | thread (h : Handle)
deriving DecidableEq, Hashable, Inhabited, Repr

namespace Key

/-- The key of a number; a NaN has none. -/
def ofNumber? : Number → Option Key
  | .int i => some (int i)
  | .float x =>
    if x.isNaN then none
    else match x.toWord? with
      | some i => some (int i)
      | none => some (float x)

/-- The key of a value; nil and NaN have none. -/
def ofValue? : Value → Option Key
  | .nil => none
  | .bool b => some (bool b)
  | .number n => ofNumber? n
  | .string h => some (string h)
  | .table h => some (table h)
  | .function h => some (function h)
  | .userdata h => some (userdata h)
  | .thread h => some (thread h)

/-- The value that a key stands for. -/
def toValue : Key → Value
  | int i => .int i
  | float x => .float x
  | bool b => .bool b
  | string h => .string h
  | table h => .table h
  | function h => .function h
  | userdata h => .userdata h
  | thread h => .thread h

/-- The name of a key's form. -/
def formName : Key → String
  | int _ => "integer"
  | float _ => "float"
  | k => k.toValue.kind.name

end Key

end LuaCore
