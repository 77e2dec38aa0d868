import LuaCore.Arena
import LuaCore.Packed
import Std.Data.HashMap

/-!
The interner: storage for byte strings in which every content is held once.

Strings live packed in an arena and are found by the hash of their content.  Interning a content that
is there gives its handle, so two handles of stored strings are equal exactly when the contents are.
A sweep also removes what it frees from the index.
-/

namespace LuaCore

/-- The hash of a byte string: its length, mixed with every `length / 32 + 1`-th byte from the last one
on. -/
def Bytes.hash (b : Bytes) : UInt32 :=
  let len := b.length
  let stride := len / 32 + 1
  (List.range (len / stride)).foldl
    (fun h k => h ^^^ ((h <<< 5) + (h >>> 2) + (b.getD (len - k * stride - 1) 0).toUInt32))
    (UInt32.ofNat len)

/-- Byte strings, each content once.  `buckets` holds the handles under the hashes of their contents. -/
structure Interner where
  arena : Arena Packed
  buckets : Std.HashMap UInt32 (List Handle)

namespace Interner

def empty : Interner := ⟨.empty, ∅⟩

instance : Inhabited Interner := ⟨empty⟩

/-- The handles under a hash. -/
def bucket (t : Interner) (hash : UInt32) : List Handle := t.buckets.getD hash []

/-- The bytes of a string, while it is stored. -/
def get? (t : Interner) (h : Handle) : Option Bytes := (t.arena.get? h).map Packed.bytes

def contains (t : Interner) (h : Handle) : Bool := t.arena.contains h

/-- The number of strings. -/
def size (t : Interner) : Nat := t.arena.size

/-- The string with the given content, if it is stored. -/
def find? (t : Interner) (b : Bytes) : Option Handle :=
  (t.bucket b.hash).find? fun h => t.get? h == some b

/-- The string with the given content, stored now if it was not. -/
def intern (t : Interner) (b : Bytes) : Interner × Handle :=
  match t.find? b with
  | some h => (t, h)
  | none =>
    let (arena, h) := t.arena.alloc (.ofBytes b b.hash)
    (⟨arena, t.buckets.insert b.hash (t.bucket b.hash ++ [h])⟩, h)

/-! ### Marks -/

def isMarked (t : Interner) (h : Handle) : Bool := t.arena.isMarked h

/-- Marks a string that is not marked; nothing if there is no such string. -/
def mark? (t : Interner) (h : Handle) : Option Interner :=
  (t.arena.mark? h).map fun a => { t with arena := a }

def clearMarks (t : Interner) : Interner := { t with arena := t.arena.clearMarks }

/-- The number of strings without a mark. -/
def unmarked (t : Interner) : Nat := t.arena.unmarked

/-- Removes a handle from the bucket of a hash, and a bucket that is then empty. -/
def forget (buckets : Std.HashMap UInt32 (List Handle)) (hash : UInt32) (h : Handle) :
    Std.HashMap UInt32 (List Handle) :=
  match (buckets.getD hash []).filter (· != h) with
  | [] => buckets.erase hash
  | rest => buckets.insert hash rest

/-- Frees every string without a mark. -/
def sweep (t : Interner) : Interner :=
  ⟨t.arena.sweep, t.arena.garbage.foldl (fun m (h, s) => forget m s.hash h) t.buckets⟩

theorem unmarked_mark? {t u : Interner} {h : Handle} (hm : t.mark? h = some u) :
    u.unmarked < t.unmarked := by
  simp only [mark?, Option.map_eq_some_iff] at hm
  obtain ⟨a, ha, rfl⟩ := hm
  exact Arena.unmarked_mark? ha

end Interner

end LuaCore
