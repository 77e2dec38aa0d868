import LuaCore.Table.Basic

/-!
Traversal of a table: first the array part in ascending order, then the hash part in the order of its
keys.  A traversal goes on from a key, so a key must be found again after its entry has been removed:
in the hash part its tombstone is still there, and an integer that has fallen off the end of the array
part has the whole hash part before it.
-/

namespace LuaCore

namespace Table

/-- The entries of the array part. -/
def arrayEntries (t : Table) : List (Value × Value) :=
  t.array.toList.zipIdx.filterMap fun (v, i) =>
    if v.isNil then none else some (.ofNat (i + 1), v)

/-- The entries of the hash part. -/
def hashEntries (t : Table) : List (Value × Value) :=
  t.hash.entries.filterMap fun (k, v) => if v.isNil then none else some (k.toValue, v)

/-- All entries, in the order of traversal. -/
def entries (t : Table) : List (Value × Value) := t.arrayEntries ++ t.hashEntries

/-- The first entry of the hash part at or behind a place. -/
def nextFromHash (t : Table) (place : Nat) : Option (Value × Value) :=
  (t.hash.entries.drop place).findSome? fun (k, v) =>
    if v.isNil then none else some (k.toValue, v)

/-- The first entry at or behind a place of the array part. -/
def nextFromArray (t : Table) (place : Nat) : Option (Value × Value) :=
  let inArray := (t.array.toList.zipIdx.drop place).findSome? fun (v, i) =>
    if v.isNil then none else some (Value.ofNat (i + 1), v)
  inArray.or (t.nextFromHash 0)

/-- An integer key that may have been in the array part. -/
def isArrayLike : Key → Bool
  | .int i => decide (1 ≤ i.toInt)
  | _ => false

/-- The entry behind a key of the hash part, or behind one that has fallen off the array part. -/
def nextInHash (t : Table) (k : Key) : Except Error (Option (Value × Value)) :=
  match t.hash.indexOf? k with
  | some place => .ok (t.nextFromHash (place + 1))
  | none =>
    if isArrayLike k then .ok (t.nextFromHash 0) else .error (.runtime .invalidNextKey)

/-- The entry behind a key; nil stands before all entries. -/
def next (t : Table) (k : Value) : Except Error (Option (Value × Value)) :=
  match Key.ofValue? k with
  | none => if k.isNil then .ok (t.nextFromArray 0) else .error (.runtime .invalidNextKey)
  | some (.int i) =>
    match t.arrayIndex? i with
    | some j => .ok (t.nextFromArray (j + 1))
    | none => t.nextInHash (.int i)
  | some key => t.nextInHash key

/-- The entry under the integer behind `i`, if it has a value. -/
def nextAt (t : Table) (i : Int64) : Option (Int64 × Value) :=
  if i = Int64.maxValue then none
  else
    let v := t.getAt (i + 1)
    if v.isNil then none else some (i + 1, v)

end Table

end LuaCore
