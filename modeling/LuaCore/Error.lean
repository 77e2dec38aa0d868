import LuaCore.Value

/-!
Errors.

An error says its cause; `Error.message` is the one place that puts causes into words.  Apart from
errors, which a program may catch, there are the ways in which a program stops for good: the use of an
object that has been freed, a computation that has no end, and fuel that has run out.
-/

namespace LuaCore

/-- What can go wrong as a program runs. -/
inductive RuntimeError where
  /-- Raised by a host function in its own words. -/
  | raised (message : String)
  | nilKey
  | nanKey
  | invalidNextKey
  | divisionByZero
  | moduloByZero
  | noInteger
  | protectedMetatable
  | callChain
  | noText
deriving DecidableEq, Repr

namespace RuntimeError

def message : RuntimeError → String
  | raised m => m
  | nilKey => "table index is nil"
  | nanKey => "table index is NaN"
  | invalidNextKey => "invalid key to 'next'"
  | divisionByZero => "attempt to perform 'n//0'"
  | moduloByZero => "attempt to perform 'n%%0'"
  | noInteger => "number has no integer representation"
  | protectedMetatable => "cannot change a protected metatable"
  | callChain => "'__call' chain too long; possible loop"
  | noText => "'__tostring' must return a string"

end RuntimeError

/-- An operation on values of the wrong kind. -/
inductive TypeError where
  /-- Something else was expected. -/
  | expected (what : String) (got : Kind)
  /-- A value was indexed that cannot be, under a key that may be a name. -/
  | index (of : Kind) (field : Option String)
  | call (of : Kind)
  | binary (bitwise : Bool) (left right : Kind)
  | unary (bitwise : Bool) (operand : Kind)
  | compare (left right : Kind)
  | concat (left right : Kind)
  | length (of : Kind)
  /-- A metatable was given to a value that cannot have its own. -/
  | ownMetatable (of : Kind)
  /-- A shared metatable was given to a kind whose values have their own. -/
  | sharedMetatable (of : Kind)
deriving DecidableEq, Repr

namespace TypeError

/-- The name of a family of operators. -/
def family (bitwise : Bool) : String := if bitwise then "bitwise operation" else "arithmetic"

def message : TypeError → String
  | expected what got => s!"{what} expected, got {got.name}"
  | index of none => s!"attempt to index a {of.name} value"
  | index of (some f) => s!"attempt to index a {of.name} value (field '{f}')"
  | call of => s!"attempt to call a {of.name} value"
  | binary bitwise l r => s!"attempt to perform {family bitwise} on {l.name} and {r.name}"
  | unary bitwise v => s!"attempt to perform {family bitwise} on a {v.name} value"
  | compare l r =>
    if l = r then s!"attempt to compare two {l.name} values"
    else s!"attempt to compare {l.name} with {r.name}"
  | concat l r => s!"attempt to concatenate {l.name} and {r.name}"
  | length of => s!"attempt to get length of a {of.name} value"
  | ownMetatable of => s!"cannot set the metatable of a {of.name} value"
  | sharedMetatable of => s!"{of.name} values have per-instance metatables"

end TypeError

/-- An argument that was refused. -/
inductive ArgumentError where
  /-- Refused by a host function in its own words. -/
  | raised (message : String)
  | expected (what : String) (got : Kind)
  | missing
deriving DecidableEq, Repr

namespace ArgumentError

def message : ArgumentError → String
  | raised m => m
  | expected what got => s!"{what} expected, got {got.name}"
  | missing => "value expected"

end ArgumentError

/-- The two ways of going through a chain of tables. -/
inductive Access where
  | read
  | write
deriving DecidableEq, Repr

/-- An error that a program can catch. -/
inductive Error where
  | runtime (cause : RuntimeError)
  | type (cause : TypeError)
  /-- An argument was refused; the position is there once it is known. -/
  | argument (position : Option Nat) (cause : ArgumentError)
  /-- A chain of tables is longer than the configured bound. -/
  | loop (access : Access)
  | stackOverflow
  /-- Any value, raised as an error. -/
  | value (v : Value)
deriving DecidableEq, Repr

namespace Error

def message : Error → String
  | runtime c => c.message
  | type c => c.message
  | argument none c => "bad argument: " ++ c.message
  | argument (some i) c => s!"bad argument #{i}: " ++ c.message
  | loop .read => "loop in gettable"
  | loop .write => "loop in settable"
  | stackOverflow => "stack overflow"
  | value v => s!"(error object is a {v.kind.name} value)"

/-- An argument error at its position; any other error as it is. -/
def atArgument (i : Nat) : Error → Error
  | argument _ c => argument (some i) c
  | e => e

end Error

/-- The kinds of stored objects. -/
inductive ObjectKind where
  | string
  | table
  | function
  | userdata
  | thread
deriving DecidableEq, Repr

/-- The name of a kind of object. -/
def ObjectKind.name : ObjectKind → String
  | string => "string"
  | table => "table"
  | function => "function"
  | userdata => "userdata"
  | thread => "thread"

/-- Why a computation gave no result. -/
inductive Stop where
  /-- An error, which can be caught. -/
  | error (e : Error)
  /-- An object was needed after it had been freed. -/
  | freed (kind : ObjectKind)
  /-- The computation has no end. -/
  | endless
  /-- The fuel given to the computation did not reach. -/
  | outOfFuel
  /-- An operation was applied where it is not defined. -/
  | undefined
deriving DecidableEq, Repr

/-- The outcome of an operation that is not defined everywhere. -/
def Stop.ofOption {α : Type} : Option α → Except Stop α
  | some a => .ok a
  | none => .error .undefined

end LuaCore
