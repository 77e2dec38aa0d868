import LuaCore.Store.Basic

/-!
Access to tables without events.
-/

namespace LuaCore

namespace Store

variable {β : Type}

/-- The handle of a value that has to be a table. -/
def expectTable : Value → StoreM β Handle
  | .table h => pure h
  | v => fail (.type (.expected "table" v.kind))

/-- The table of a value that has to be one. -/
def tableOf (v : Value) : StoreM β Table := do table (← expectTable v)

/-- Replaces the table of a value that has to be one. -/
def modifyTable (v : Value) (f : Table → Table) : StoreM β Unit := do
  let h ← expectTable v
  let t ← table h
  putTable h (f t)

def rawGet (t k : Value) : StoreM β Value := do return (← tableOf t).get k

def rawGetAt (t : Value) (i : Int64) : StoreM β Value := do return (← tableOf t).getAt i

def rawSet (t k v : Value) : StoreM β Unit := do
  let h ← expectTable t
  putTable h (← ofExcept ((← table h).set k v))

/-- Assigns pairs in order, up to the first that is refused. -/
def rawSetAll (t : Value) : List (Value × Value) → StoreM β Unit
  | [] => pure ()
  | (k, v) :: pairs => do
    rawSet t k v
    rawSetAll t pairs

/-- A table from pairs.  When one is refused, the table stays, with the pairs before it. -/
def newTableOfPairs (pairs : List (Value × Value)) : StoreM β Value := do
  let h ← allocTable (.new 0 pairs.length)
  rawSetAll (.table h) pairs
  return .table h

def rawSetAt (t : Value) (i : Int64) (v : Value) : StoreM β Unit := modifyTable t (·.setAt i v)

/-- The border of a table, or the number of bytes of a string. -/
def rawLen : Value → StoreM β Nat
  | .table h => return (← table h).length
  | .string h => return (← bytes h).length
  | v => fail (.type (.expected "table or string" v.kind))

/-- The entry behind a key. -/
def next (t k : Value) : StoreM β (Option (Value × Value)) := do
  ofExcept ((← tableOf t).next k)

/-- The entry under the integer behind `i`. -/
def nextAt (t : Value) (i : Int64) : StoreM β (Option (Int64 × Value)) := do
  return (← tableOf t).nextAt i

/-- Removes the entries of a table whose weak side, under the given mode, passes the test, and gives
what was found. -/
def clearWeak (t : Value) (mode : WeakMode) (isDead : Value → Bool) : StoreM β DeadEntries := do
  let h ← expectTable t
  let u ← table h
  let dead := u.deadEntries mode isDead
  putTable h (u.removeDead dead)
  return dead

end Store

end LuaCore
