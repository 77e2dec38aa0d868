import LuaCore.Table.Basic

/-!
Clearing the entries of weak tables whose weak side is dead.  Removed entries of the hash part leave
tombstones, so a traversal can go on across a clearing.
-/

namespace LuaCore

/-- The entries that a clearing removes: places of the array part, and keys of the hash part. -/
structure DeadEntries where
  places : List Nat
  keys : List Key

namespace DeadEntries

def isEmpty (d : DeadEntries) : Bool := d.places.isEmpty && d.keys.isEmpty

def size (d : DeadEntries) : Nat := d.places.length + d.keys.length

end DeadEntries

namespace Table

/-- Whether an entry of the hash part has a dead weak side. -/
def isDeadEntry (mode : WeakMode) (isDead : Value → Bool) (k : Key) (v : Value) : Bool :=
  !v.isNil && (mode.keys && isDead k.toValue || mode.values && isDead v)

/-- The entries with a dead weak side. -/
def deadEntries (t : Table) (mode : WeakMode) (isDead : Value → Bool) : DeadEntries where
  places :=
    if mode.values then
      t.array.toList.zipIdx.filterMap fun (v, i) => if isDead v then some i else none
    else []
  keys :=
    t.hash.entries.filterMap fun (k, v) => if isDeadEntry mode isDead k v then some k else none

/-- Removes the given entries. -/
def removeDead (t : Table) (d : DeadEntries) : Table :=
  let cleared := d.places.foldl (fun a i => a.setIfInBounds i .nil) t.array
  d.keys.foldl (fun t k => t.hashSet k .nil) ({ t with array := cleared }).trim

end Table

end LuaCore
