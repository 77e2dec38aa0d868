import LuaCore.Store.Access

/-!
Metatables and the handlers in them.

A table or a userdata has its own metatable; the values of any other kind share one.  The handler of an
event is what the metatable holds under the event's name.
-/

namespace LuaCore

namespace Store

variable {β : Type}

/-- The metatable that governs a value. -/
def metatableOf : Value → StoreM β (Option Handle)
  | .table h => return (← table h).metatable
  | .userdata h => return (← userdata h).metatable
  | v => return (← get).shared.get? v.kind

/-- What a metatable holds under the name of an event. -/
def field (mt : Handle) (e : Event) : StoreM β Value := do
  return (← table mt).getName ((← get).nameOf e)

/-- The handler of an event for a value; nothing if there is none. -/
def handler? (v : Value) (e : Event) : StoreM β (Option Value) := do
  match ← metatableOf v with
  | none => return none
  | some mt =>
    let h ← field mt e
    return if h.isNil then none else some h

/-- The handler of an event for the first of two values that has one. -/
def binaryHandler? (a b : Value) (e : Event) : StoreM β (Option Value) := do
  match ← handler? a e with
  | some h => return some h
  | none => handler? b e

/-- The metatable as programs see it: what it holds in its own place under `__metatable`, if that is
anything. -/
def visibleMetatable (v : Value) : StoreM β Value := do
  match ← metatableOf v with
  | none => return .nil
  | some mt =>
    let p ← field mt .metatable
    return if p.isNil then .table mt else p

/-- The mode that a metatable declares. -/
def declaredMode : Option Handle → StoreM β WeakMode
  | none => pure .strong
  | some mt => do
    match ← bytes? (← field mt .mode) with
    | some b => return .ofBytes b
    | none => return .strong

/-- Refuses to go on if the metatable of a value is protected. -/
def checkUnprotected (v : Value) : StoreM β Unit := do
  match ← metatableOf v with
  | none => return ()
  | some mt =>
    if !(← field mt .metatable).isNil then fail (.runtime .protectedMetatable)

/-- Gives a table or a userdata a metatable, or takes it away with nil. -/
def setMetatable (v mt : Value) : StoreM β Unit := do
  let new ← match mt with
    | .nil => pure none
    | .table h => pure (some h)
    | w => fail (.type (.expected "nil or table" w.kind))
  checkUnprotected v
  match v with
  | .table h =>
    let mode ← declaredMode new
    let t ← table h
    putTable h { t with metatable := new, weakMode := mode }
  | .userdata h =>
    let u ← userdata h
    putUserdata h { u with metatable := new }
  | w => fail (.type (.ownMetatable w.kind))

/-- Replaces the metatable that the values of a kind share, and gives the one before. -/
def setShared (k : Kind) (mt : Option Handle) : StoreM β (Option Handle) := do
  let s ← get
  match s.shared.set? k mt with
  | some shared =>
    set { s with shared := shared }
    return s.shared.get? k
  | none => fail (.type (.sharedMetatable k))

/-- Puts all shared metatables back. -/
def restoreShared (shared : SharedMetatables) : StoreM β Unit :=
  modify fun s => { s with shared := shared }

end Store

end LuaCore
