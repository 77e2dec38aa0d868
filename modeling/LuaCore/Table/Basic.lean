import LuaCore.Error
import LuaCore.OrderedMap
import LuaCore.Table.Key

/-!
Tables.

A table is an array part, which holds the keys `1, 2, …` up to its size, and a hash part, which holds
all other keys in the order in which they came.  An entry is removed by assigning nil.  In the hash
part such an entry stays behind as a tombstone, so that a traversal standing at its key can go on; when
tombstones prevail they are dropped before the next new key.  The array part never ends in nil, and
integer keys of the hash part move over when the array part grows to them.
-/

namespace LuaCore

/-- Which sides of a table's entries do not keep their objects alive. -/
structure WeakMode where
  keys : Bool
  values : Bool
deriving DecidableEq, Inhabited, Repr

namespace WeakMode

/-- Nothing is weak. -/
def strong : WeakMode := ⟨false, false⟩

/-- The mode that a byte string declares: `k` for weak keys, `v` for weak values. -/
def ofBytes (b : Bytes) : WeakMode := ⟨b.contains 107, b.contains 118⟩

def isWeak (m : WeakMode) : Bool := m.keys || m.values

end WeakMode

/-- A table. -/
structure Table where
  array : Array Value := #[]
  hash : OrderedMap Key Value := .empty
  /-- The number of entries of the hash part that have been removed and are still there. -/
  tombstones : Nat := 0
  metatable : Option Handle := none
  weakMode : WeakMode := .strong
deriving Inhabited, Repr

namespace Table

def empty : Table := {}

/-- A new table.  The hints say what sizes its parts are expected to reach; they are no part of its
content. -/
def new (_arrayHint _hashHint : Nat) : Table := empty

/-! ### The hash part -/

/-- Tombstones up to this number are always tolerated. -/
def tombstoneSlack : Nat := 8

def hashGet (t : Table) (k : Key) : Value := (t.hash.find? k).getD .nil

/-- Drops the tombstones. -/
def compact (t : Table) : Table :=
  { t with hash := t.hash.filterValues fun v => !v.isNil, tombstones := 0 }

/-- Drops the tombstones if they are many and the larger part. -/
def makeRoom (t : Table) : Table :=
  if tombstoneSlack < t.tombstones ∧ t.hash.size < t.tombstones * 2 then t.compact else t

/-- The number of tombstones after an entry changes its value. -/
def recount (tombstones : Nat) (old new : Value) : Nat :=
  match old.isNil, new.isNil with
  | false, true => tombstones + 1
  | true, false => tombstones - 1
  | _, _ => tombstones

/-- Assigns an entry of the hash part.  To remove a key that is not there changes nothing. -/
def hashSet (t : Table) (k : Key) (v : Value) : Table :=
  match t.hash.find? k with
  | some old => { t with hash := t.hash.insert k v, tombstones := recount t.tombstones old v }
  | none =>
    if v.isNil then t
    else
      let t := t.makeRoom
      { t with hash := t.hash.insert k v }

/-! ### The array part -/

/-- The place of an integer key in the array part. -/
def arrayIndex? (t : Table) (i : Int64) : Option Nat :=
  if 1 ≤ i.toInt ∧ i.toInt ≤ t.array.size then some (i.toInt - 1).toNat else none

/-- Drops the nils at the end of the array part. -/
def trim (t : Table) : Table := { t with array := t.array.popWhile Value.isNil }

/-- The key behind the last one of the array part. -/
def frontier (t : Table) : Key := .int (Int64.ofNat (t.array.size + 1))

/-- Moves entries of the hash part over while the frontier is among them.  Behind the largest integer
there is no key. -/
def migrate (t : Table) : Table :=
  match hv : t.hash.find? t.frontier with
  | some v =>
    if v.isNil ∨ Int64.maxValue.toInt ≤ t.array.size then t
    else
      have := OrderedMap.size_erase_lt hv
      migrate { t with hash := t.hash.erase t.frontier, array := t.array.push v }
  | none => t
termination_by t.hash.size

/-! ### Reading and assigning -/

/-- The value under an integer. -/
def getAt (t : Table) (i : Int64) : Value :=
  match t.arrayIndex? i with
  | some j => t.array.getD j .nil
  | none => t.hashGet (.int i)

/-- The value under a string. -/
def getName (t : Table) (s : Handle) : Value := t.hashGet (.string s)

/-- The value under a key. -/
def getKey (t : Table) : Key → Value
  | .int i => t.getAt i
  | k => t.hashGet k

/-- The value under any value; nil where there is none. -/
def get (t : Table) (k : Value) : Value :=
  match Key.ofValue? k with
  | some k => t.getKey k
  | none => .nil

/-- Appends a value to the array part.  Its key may be in the hash part. -/
def append (t : Table) (i : Int64) (v : Value) : Table :=
  let t := if t.hash.contains (.int i) then t.hashSet (.int i) .nil else t
  migrate { t with array := t.array.push v }

/-- Assigns under an integer. -/
def setAt (t : Table) (i : Int64) (v : Value) : Table :=
  match t.arrayIndex? i with
  | some j =>
    let u := { t with array := t.array.setIfInBounds j v }
    if v.isNil && j + 1 == t.array.size then u.trim else u
  | none =>
    if i.toInt = t.array.size + 1 && !v.isNil then t.append i v
    else t.hashSet (.int i) v

/-- Assigns under a string. -/
def setName (t : Table) (s : Handle) (v : Value) : Table := t.hashSet (.string s) v

/-- Assigns under a key. -/
def setKey (t : Table) (k : Key) (v : Value) : Table :=
  match k with
  | .int i => t.setAt i v
  | k => t.hashSet k v

/-- Assigns under any value; nil and NaN are refused. -/
def set (t : Table) (k v : Value) : Except Error Table :=
  match Key.ofValue? k with
  | some k => .ok (t.setKey k v)
  | none => .error (.runtime (if k.isNil then .nilKey else .nanKey))

/-! ### Length -/

/-- Goes on counting in the hash part from `n`.  The fuel bounds the number of keys. -/
def hashBorder (t : Table) : Nat → Nat → Nat
  | 0, n => n
  | fuel + 1, n =>
    if (n : Int) < Int64.maxValue.toInt ∧ !(t.hashGet (.int (Int64.ofNat (n + 1)))).isNil then
      t.hashBorder fuel (n + 1)
    else n

/-- A border between `lo` and `hi` in the array part, by halving. -/
def halve (array : Array Value) (lo hi : Nat) : Nat :=
  if lo < hi then
    let mid := (lo + hi) / 2
    if (array.getD mid .nil).isNil then halve array lo mid else halve array (mid + 1) hi
  else lo
termination_by hi - lo
decreasing_by all_goals omega

/-- A border: a number `n` such that `n` has a value, unless it is zero, and `n + 1` has none. -/
def length (t : Table) : Nat :=
  match t.array.back? with
  | none => t.hashBorder t.hash.size 0
  | some v =>
    if v.isNil then halve t.array 0 t.array.size else t.hashBorder t.hash.size t.array.size

def arrayLen (t : Table) : Nat := t.array.size

/-- The number of entries of the hash part, without the tombstones. -/
def hashLen (t : Table) : Nat := t.hash.size - t.tombstones

/-! ### Building -/

/-- The table with the given values under `1, 2, …`. -/
def ofList (vs : List Value) : Table :=
  vs.zipIdx.foldl (fun t (v, i) => t.setAt (Int64.ofNat (i + 1)) v) empty

/-! ### Text -/

/-- A table for a reader. -/
def describe (t : Table) : String := s!"table(array={t.arrayLen}, hash={t.hashLen})"

end Table

end LuaCore
