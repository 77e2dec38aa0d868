import LuaCore.Arena
import LuaCore.Number.Basic
import LuaCore.Number.Decimal

/-!
Values.

A value is nil, a boolean, a number, or a handle: of a string in the interner, or of a table, function,
userdata or thread in the heap.  Handles of different kinds are told apart by the constructor.
-/

namespace LuaCore

/-- The kinds of values, as programs see them. -/
inductive Kind where
  | nil
  | boolean
  | number
  | string
  | table
  | function
  | userdata
  | thread
deriving DecidableEq, Inhabited, Repr

/-- The name of a kind. -/
def Kind.name : Kind → String
  | nil => "nil"
  | boolean => "boolean"
  | number => "number"
  | string => "string"
  | table => "table"
  | function => "function"
  | userdata => "userdata"
  | thread => "thread"

def Kind.all : List Kind := [nil, boolean, number, string, table, function, userdata, thread]

/-- A value. -/
inductive Value where
  | nil
  | bool (b : Bool)
  | number (n : Number)
  | string (h : Handle)
  | table (h : Handle)
  | function (h : Handle)
  | userdata (h : Handle)
  | thread (h : Handle)
deriving DecidableEq, Inhabited, Repr

namespace Value

/-- An integer. -/
@[match_pattern] abbrev int (i : Int64) : Value := .number (.int i)

/-- A double. -/
@[match_pattern] abbrev float (x : Double) : Value := .number (.float x)

/-- The integer of a count. -/
abbrev ofNat (n : Nat) : Value := .int (Int64.ofNat n)

/-! ### Kinds -/

def kind : Value → Kind
  | nil => .nil
  | bool _ => .boolean
  | number _ => .number
  | string _ => .string
  | table _ => .table
  | function _ => .function
  | userdata _ => .userdata
  | thread _ => .thread

def isNil : Value → Bool
  | nil => true
  | _ => false

def isNumber : Value → Bool
  | number _ => true
  | _ => false

def isString : Value → Bool
  | string _ => true
  | _ => false

def isTable : Value → Bool
  | table _ => true
  | _ => false

def isFunction : Value → Bool
  | function _ => true
  | _ => false

/-- Whether the life of the value hangs on its being reachable.  A string is stored too, but counts as
a plain value, which no weak table drops. -/
def isCollectable : Value → Bool
  | table _ | function _ | userdata _ | thread _ => true
  | _ => false

/-- Nil and false count as false, all else as true. -/
def isTruthy : Value → Bool
  | nil => false
  | bool b => b
  | _ => true

/-- The handle of a table. -/
def table? : Value → Option Handle
  | table h => some h
  | _ => none

/-- The table of a handle, or nil without one. -/
def ofTable? : Option Handle → Value
  | some h => table h
  | none => nil

/-! ### Equality -/

/-- Equality without the events of metatables.  Numbers are compared by their exact values.  Strings
are interned, so equal handles are equal contents. -/
def rawEq : Value → Value → Bool
  | number m, number n => m.eq n
  | a, b => a == b

/-! ### Text -/

/-- A value for a reader, with the handle of what is stored. -/
def describe : Value → String
  | nil => "nil"
  | bool b => toString b
  | number n => Bytes.toAscii n.text
  | string h => s!"string({h.text})"
  | table h => s!"table({h.text})"
  | function h => s!"function({h.text})"
  | userdata h => s!"userdata({h.text})"
  | thread h => s!"thread({h.text})"

end Value

end LuaCore
