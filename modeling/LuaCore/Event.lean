/-!
The events that a metatable can handle, with the names under which their handlers are stored.
-/

namespace LuaCore

/-- An event. -/
inductive Event where
  | index
  | newIndex
  | call
  | add
  | sub
  | mul
  | div
  | mod
  | pow
  | unm
  | idiv
  | band
  | bor
  | bxor
  | shl
  | shr
  | bnot
  | len
  | eq
  | lt
  | le
  | concat
  | tostring
  | name
  | metatable
  | mode
  | close
  | gc
deriving DecidableEq, Inhabited, Repr

namespace Event

/-- All events; their names are interned in this order. -/
def all : List Event :=
  [.index, .newIndex, .call, .add, .sub, .mul, .div, .mod, .pow, .unm, .idiv, .band, .bor, .bxor,
   .shl, .shr, .bnot, .len, .eq, .lt, .le, .concat, .tostring, .name, .metatable, .mode, .close,
   .gc]

/-- The name of the handler of an event, as a key of the metatable. -/
def key : Event → String
  | index => "__index"
  | newIndex => "__newindex"
  | call => "__call"
  | add => "__add"
  | sub => "__sub"
  | mul => "__mul"
  | div => "__div"
  | mod => "__mod"
  | pow => "__pow"
  | unm => "__unm"
  | idiv => "__idiv"
  | band => "__band"
  | bor => "__bor"
  | bxor => "__bxor"
  | shl => "__shl"
  | shr => "__shr"
  | bnot => "__bnot"
  | len => "__len"
  | eq => "__eq"
  | lt => "__lt"
  | le => "__le"
  | concat => "__concat"
  | tostring => "__tostring"
  | name => "__name"
  | metatable => "__metatable"
  | mode => "__mode"
  | close => "__close"
  | gc => "__gc"

/-- The place of an event among all events. -/
def place (e : Event) : Nat := all.idxOf e

/-- The event whose handler has the given name. -/
def ofKey? (s : String) : Option Event := all.find? fun e => e.key == s

end Event

end LuaCore
