import LuaCore.Bytes

/-!
Byte strings as they are stored.

A short content lies at the start of a buffer of fixed size, with the number of bytes that it takes; a
long content lies by itself.  The hash of the content is kept beside it.
-/

namespace LuaCore

namespace Packed

/-- The size of the buffer for a short content. -/
abbrev bufferSize : Nat := 40

/-- Where the bytes of a content lie. -/
inductive Place where
  | buffer (bytes : Vector UInt8 bufferSize) (used : UInt8)
  | apart (bytes : Bytes)

end Packed

/-- A stored byte string. -/
structure Packed where
  place : Packed.Place
  hash : UInt32

namespace Packed

/-- The place for a content.  What a short one leaves of the buffer is zero. -/
def Place.ofBytes (b : Bytes) : Place :=
  if h : b.length ≤ bufferSize then
    .buffer ⟨(b ++ List.replicate (bufferSize - b.length) 0).toArray, by simp; omega⟩
      (UInt8.ofNat b.length)
  else
    .apart b

/-- A content with its hash. -/
def ofBytes (b : Bytes) (hash : UInt32) : Packed := ⟨.ofBytes b, hash⟩

/-- The content. -/
def bytes (p : Packed) : Bytes :=
  match p.place with
  | .buffer bytes used => bytes.toList.take used.toNat
  | .apart bytes => bytes

@[simp] theorem hash_ofBytes (b : Bytes) (hash : UInt32) : (ofBytes b hash).hash = hash := rfl

/-- **What is stored is read back**, short or long: the length of a short content fits into a byte. -/
@[simp] theorem bytes_ofBytes (b : Bytes) (hash : UInt32) : (ofBytes b hash).bytes = b := by
  simp only [bytes, ofBytes, Place.ofBytes]
  by_cases h : b.length ≤ bufferSize
  · have hused : (UInt8.ofNat b.length).toNat = b.length := by
      rw [UInt8.toNat_ofNat_of_lt']
      exact Nat.lt_of_le_of_lt h (by decide)
    simp [h, hused, Vector.toList]
  · simp [h]

end Packed

end LuaCore
