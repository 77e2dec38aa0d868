import LuaCore.Program.Basic
import LuaCore.Store.Conversion

/-!
Arguments of host functions.

Each type of argument has a reading that never fails, and one that refuses a value of another kind.  A
number is taken as an integer by cutting off its fraction.  A numeral is taken for a number, and a number
for a string.  A refusal is an argument error, which gets a position where the argument has one.
-/

namespace LuaCore

namespace Store

variable {β α : Type}

/-! ### Readings that never fail -/

/-- The integer part of a number or numeral; zero for other values. -/
def toWordOrZero (v : Value) : StoreM β Int64 := do
  return ((← toNumber? v).map Number.truncate).getD 0

/-- The double of a number or numeral; zero for other values. -/
def toDoubleOrZero (v : Value) : StoreM β Double := do
  return (← toDouble? v).getD .zero

/-- The string of a string or number; nil for other values. -/
def toStringOrNil (v : Value) : StoreM β Value := do
  return (← toString? v).getD .nil

/-! ### Readings that refuse -/

/-- Refuses an argument because of its kind. -/
def refuse (what : String) (v : Value) : StoreM β α := fail (.argument none (.expected what v.kind))

/-- What was found in an argument, or else a refusal. -/
def orRefuse (what : String) (v : Value) : Option α → StoreM β α
  | some a => pure a
  | none => refuse what v

def checkBool : Value → StoreM β Bool
  | .bool b => pure b
  | v => refuse "boolean" v

def checkNumber (v : Value) : StoreM β Number := do
  orRefuse "number" v (← toNumber? v)

def checkWord (v : Value) : StoreM β Int64 := do
  return (← checkNumber v).truncate

def checkDouble (v : Value) : StoreM β Double := do
  return (← checkNumber v).toDouble

def checkString (v : Value) : StoreM β Value := do
  orRefuse "string" v (← toString? v)

def checkTable (v : Value) : StoreM β Handle := orRefuse "table" v v.table?

def checkFunction : Value → StoreM β Value
  | .function h => pure (.function h)
  | v => refuse "function" v

def checkThread : Value → StoreM β Value
  | .thread h => pure (.thread h)
  | v => refuse "thread" v

/-- The payload of a userdata, if it is of the given type. -/
def payloadOf? (v : Value) (t : PayloadType) : StoreM β (Option Payload) := do
  return (← payload? v).bind fun p => p.as? t

/-- A userdata with a payload of the given type. -/
def checkPayload (v : Value) (t : PayloadType) : StoreM β Payload := do
  match v with
  | .userdata _ => orRefuse t.name v (← payloadOf? v t)
  | _ => refuse "userdata" v

/-- Anything but nil. -/
def checkPresent (v : Value) : StoreM β Value :=
  if v.isNil then fail (.argument none .missing) else pure v

/-- A default in place of nil, and else what a check makes of the value. -/
def orDefault (check : Value → StoreM β α) (default : StoreM β α) (v : Value) : StoreM β α :=
  if v.isNil then default else check v

/-- Gives an argument error its position. -/
def atPosition (i : Nat) (x : StoreM β α) : StoreM β α := fun s =>
  match x s with
  | .error (.error e) t => .error (.error (e.atArgument i)) t
  | r => r

end Store

namespace Program

variable {β σ α : Type}

/-- What a check makes of the argument at a position. -/
def argument (args : Sequence) (i : Nat) (check : Value → StoreM β α) : Program β σ α := do
  let v ← valueAt args i
  store (Store.atPosition i (check v))

/-- The argument at a position, which has to be there; nil counts. -/
def presentArgument (args : Sequence) (i : Nat) : Program β σ Value := do
  if ← reading fun l => args.hasValue? l i then valueAt args i
  else fail (.argument (some i) .missing)

/-- Refuses the argument at a position in the host's own words, unless a test holds. -/
def requireArgument (test : Bool) (i : Nat) (message : String) : Program β σ Unit :=
  if test then return () else fail (.argument (some i) (.raised message))

end Program

end LuaCore
