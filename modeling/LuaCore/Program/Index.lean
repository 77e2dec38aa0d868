import LuaCore.Program.Basic
import LuaCore.Store.Conversion
import LuaCore.Store.Metatable

/-!
Reading and writing under a key, through the handlers of metatables.

A table answers for a key that it holds.  For any other key, and for a value that is no table, the
handler of the event decides: a function is called, and any other handler is asked in place of the
value.  The chain of such handlers is followed up to the configured bound.
-/

namespace LuaCore

namespace Store

variable {β : Type}

/-- What a value holds under a key itself; nothing if that is nil, or the value is no table. -/
def held? (t k : Value) : StoreM β (Option Value) := do
  match t with
  | .table h =>
    let v := (← table h).get k
    return if v.isNil then none else some v
  | _ => return none

/-- The error of a value that can not be indexed, which names the key if that is a string. -/
def indexError (t k : Value) : StoreM β Error := do
  return .type (.index t.kind (← lossyText? k))

end Store

namespace Program

variable {β σ : Type}

/-- The value under a key, within a number of links. -/
def indexIn : (links : Nat) → Value → Value → Program β σ Value
  | 0, _, _ => fail (.loop .read)
  | n + 1, t, k => do
    match ← store (Store.held? t k) with
    | some v => return v
    | none =>
      match ← store (Store.handler? t .index) with
      | none => if t.isTable then return .nil else fail (← store (Store.indexError t k))
      | some h => if h.isFunction then call h [t, k] else indexIn n h k

/-- The bound on the links of a chain. -/
def maxTagLoop : Program β σ Nat := store (return (← get).config.maxTagLoop)

/-- The value under a key. -/
def index (t k : Value) : Program β σ Value := do
  indexIn (← maxTagLoop) t k

/-- Puts a value under a key, within a number of links.  A key that is held is written in place. -/
def assignIn : (links : Nat) → Value → Value → Value → Program β σ Unit
  | 0, _, _, _ => fail (.loop .write)
  | n + 1, t, k, v => do
    match ← store (Store.held? t k) with
    | some _ => store (Store.rawSet t k v)
    | none =>
      match ← store (Store.handler? t .newIndex) with
      | none => if t.isTable then store (Store.rawSet t k v) else fail (← store (Store.indexError t k))
      | some h => if h.isFunction then discard (call h [t, k, v]) else assignIn n h k v

/-- Puts a value under a key. -/
def assign (t k v : Value) : Program β σ Unit := do
  assignIn (← maxTagLoop) t k v

/-! ### Names as keys -/

/-- The value under a name. -/
def field (t : Value) (name : String) : Program β σ Value := do
  index t (← store (Store.newString (Bytes.ofString name)))

/-- Puts a value under a name. -/
def assignField (t : Value) (name : String) (v : Value) : Program β σ Unit := do
  assign t (← store (Store.newString (Bytes.ofString name))) v

/-- Calls what a value holds under a name, with the value itself in front of the arguments. -/
def invokeMethod (t : Value) (name : String) (args : Sequence) : Program β σ Sequence := do
  invoke (← field t name) (args.cons t)

end Program

end LuaCore
