/-!
Arenas: storage for objects of one kind, addressed by handles that are never mistaken for one another.

An object lives in a slot.  Its handle names the slot and the generation that the slot had when the
object was put there.  Freeing the object moves the slot to its next generation, so the handle stops
being accepted at that moment, whatever is put into the slot later.  Freed slots are used again, the
one freed last first.

A slot also has a mark.  `mark` sets it, and `sweep` frees what is not marked.
-/

namespace LuaCore

/-- Names an object of an arena. -/
structure Handle where
  index : Nat
  generation : UInt32
deriving DecidableEq, Hashable, Inhabited, Repr

/-- The text of a handle. -/
def Handle.text (h : Handle) : String := s!"#{h.index}@{h.generation}"

/-- A place for one object. -/
structure Slot (α : Type) where
  generation : UInt32
  marked : Bool
  value : Option α
deriving Inhabited

/-- Storage for objects of one kind.  `free` holds the empty slots, the next one to use in front, and
`live` counts the others. -/
structure Arena (α : Type) where
  slots : Array (Slot α)
  free : List Nat
  live : Nat

namespace Arena

variable {α : Type}

def empty : Arena α := ⟨#[], [], 0⟩

instance : Inhabited (Arena α) := ⟨empty⟩

/-- A new object, and its handle. -/
def alloc (a : Arena α) (v : α) : Arena α × Handle :=
  match a.free with
  | i :: rest =>
    let g := match a.slots[i]? with
      | some s => s.generation
      | none => 0
    (⟨a.slots.setIfInBounds i ⟨g, false, some v⟩, rest, a.live + 1⟩, ⟨i, g⟩)
  | [] => (⟨a.slots.push ⟨0, false, some v⟩, [], a.live + 1⟩, ⟨a.slots.size, 0⟩)

/-- The slot of a handle, while the handle is good. -/
def slot? (a : Arena α) (h : Handle) : Option (Slot α) :=
  a.slots[h.index]?.filter fun s => s.generation == h.generation && s.value.isSome

/-- The object of a handle, while the handle is good. -/
def get? (a : Arena α) (h : Handle) : Option α := (a.slot? h).bind Slot.value

/-- Whether a handle is good. -/
def contains (a : Arena α) (h : Handle) : Bool := (a.slot? h).isSome

/-- Changes the object of a good handle. -/
def modify (a : Arena α) (h : Handle) (f : α → α) : Arena α :=
  if a.contains h then
    { a with slots := a.slots.modify h.index fun s => { s with value := s.value.map f } }
  else
    a

/-- Replaces the object of a good handle. -/
def put (a : Arena α) (h : Handle) (v : α) : Arena α := a.modify h fun _ => v

/-- Changes every object. -/
def map (a : Arena α) (f : α → α) : Arena α :=
  { a with slots := a.slots.map fun s => { s with value := s.value.map f } }

/-- The number of objects. -/
def size (a : Arena α) : Nat := a.live

/-! ### Marks -/

def isMarked (a : Arena α) (h : Handle) : Bool :=
  match a.slot? h with
  | some s => s.marked
  | none => false

/-- Marks an object that is not marked; nothing if there is no such object. -/
def mark? (a : Arena α) (h : Handle) : Option (Arena α) :=
  match a.slot? h with
  | some s =>
    if s.marked then none
    else some { a with slots := a.slots.setIfInBounds h.index { s with marked := true } }
  | none => none

/-- Marks an object, and says whether it was not marked before. -/
def mark (a : Arena α) (h : Handle) : Arena α × Bool :=
  match a.mark? h with
  | some b => (b, true)
  | none => (a, false)

def clearMarks (a : Arena α) : Arena α :=
  { a with slots := a.slots.map fun s => { s with marked := false } }

/-- The number of objects without a mark. -/
def unmarked (a : Arena α) : Nat := a.slots.countP fun s => s.value.isSome && !s.marked

/-! ### Listing and freeing -/

/-- The objects with their handles, in the order of their slots. -/
def entries (a : Arena α) : List (Handle × α) :=
  a.slots.toList.zipIdx.filterMap fun (s, i) => s.value.map fun v => (⟨i, s.generation⟩, v)

def handles (a : Arena α) : List Handle := a.entries.map Prod.fst

/-- The objects that a sweep frees, with the handles they have until then. -/
def garbage (a : Arena α) : List (Handle × α) := a.entries.filter fun (h, _) => !a.isMarked h

/-- A slot after a sweep. -/
def Slot.swept (s : Slot α) : Slot α :=
  if s.marked || s.value.isNone then s
  else { s with generation := s.generation + 1, value := none }

/-- Frees every object without a mark.  The freed slots are used again from the last one on. -/
def sweep (a : Arena α) : Arena α :=
  let freed := a.garbage.map fun (h, _) => h.index
  ⟨a.slots.map Slot.swept, freed.reverse ++ a.free, a.live - freed.length⟩

/-! ### Marking leaves fewer objects without a mark -/

theorem slot?_eq_some {a : Arena α} {h : Handle} {s : Slot α} (hs : a.slot? h = some s) :
    a.slots[h.index]? = some s ∧ s.generation = h.generation ∧ s.value.isSome := by
  simp only [slot?, Option.filter_eq_some_iff] at hs
  simpa using hs

theorem unmarked_mark? {a b : Arena α} {h : Handle} (hm : a.mark? h = some b) :
    b.unmarked < a.unmarked := by
  unfold mark? at hm
  split at hm
  case h_2 => simp at hm
  case h_1 s hs =>
    obtain ⟨hget, -, hval⟩ := slot?_eq_some hs
    obtain ⟨hlt, rfl⟩ := Array.getElem?_eq_some_iff.1 hget
    split at hm
    · simp at hm
    · rename_i hmarked
      cases hm
      have hfresh : a.slots[h.index].marked = false := by simpa using hmarked
      have hpos : 0 < a.slots.countP fun t => t.value.isSome && !t.marked :=
        Array.countP_pos_iff.2 ⟨a.slots[h.index], Array.getElem_mem hlt, by simp [hval, hfresh]⟩
      simp only [unmarked, Array.setIfInBounds, hlt, dif_pos]
      rw [Array.countP_set hlt, if_pos (by simp [hval, hfresh]), if_neg (by simp)]
      omega

end Arena

end LuaCore
