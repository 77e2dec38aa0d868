import LuaCore.Heap.Marking

/-!
Collection: everything that the roots do not reach is freed, and the entries of weak tables whose weak
side is freed are removed.
-/

namespace LuaCore

/-- What a collection freed. -/
structure CollectStats where
  tables : Nat
  functions : Nat
  userdata : Nat
  threads : Nat
  strings : Nat
  /-- The entries of weak tables that were removed. -/
  weakEntries : Nat
deriving DecidableEq, Repr

namespace CollectStats

/-- The number of objects freed. -/
def objects (s : CollectStats) : Nat :=
  s.tables + s.functions + s.userdata + s.threads + s.strings

end CollectStats

namespace Heap

variable {β : Type}

/-- The entries of a table whose weak side has no mark. -/
def deadEntries (heap : Heap β) (t : Table) : DeadEntries := t.deadEntries t.weakMode heap.isDead

/-- Clears a weak table. -/
def clearWeak (heap : Heap β) (h : Handle) : Heap β :=
  { heap with tables := heap.tables.modify h fun t => t.removeDead (heap.deadEntries t) }

/-- The number of entries that clearing a weak table removes. -/
def deadCount (heap : Heap β) (h : Handle) : Nat :=
  ((heap.tables.get? h).map fun t => (heap.deadEntries t).size).getD 0

/-- Frees every object without a mark. -/
def sweep (heap : Heap β) : Heap β where
  tables := heap.tables.sweep
  functions := heap.functions.sweep
  userdata := heap.userdata.sweep
  threads := heap.threads.sweep

/-- The marking of what the roots reach. -/
def markFrom (heap : Heap β) (strings : Interner) (roots : List Value) :
    Except Stop (Marking β) :=
  match heap.clearMarks.refreshModes strings.clearMarks with
  | .error e => .error e
  | .ok heap =>
    let start : Marking β := { heap := heap, strings := strings.clearMarks, gray := roots.reverse }
    match start.propagate.settle with
    | some m => .ok m
    | none => .error .endless

/-- Clears the weak tables of a marking and frees what has no mark. -/
def reclaim (m : Marking β) : Heap β × Interner × CollectStats :=
  let cleared := m.weak.foldl clearWeak m.heap
  (cleared.sweep, m.strings.sweep,
    { tables := cleared.tables.garbage.length
      functions := cleared.functions.garbage.length
      userdata := cleared.userdata.garbage.length
      threads := cleared.threads.garbage.length
      strings := m.strings.arena.garbage.length
      weakEntries := m.weak.foldl (fun n h => n + m.heap.deadCount h) 0 })

/-- Frees everything that the roots do not reach. -/
def collect (heap : Heap β) (strings : Interner) (roots : List Value) :
    Except Stop (Heap β × Interner × CollectStats) :=
  (heap.markFrom strings roots).map reclaim

end Heap

end LuaCore
