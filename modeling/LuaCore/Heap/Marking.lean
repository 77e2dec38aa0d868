import LuaCore.Heap.Basic

/-!
Marking what is reachable.

Values that are known to be reachable wait in a list, from which they are taken one after the other.
An object that is met for the first time is marked, and what it refers to joins the list.  Each time
either an object gets its mark or the list becomes shorter, so marking ends.

A table with weak keys keeps a value alive only through its key, so once nothing waits its entries are
looked at again: a value whose key has been reached, and that has no mark, is reachable too.  Such
rounds are repeated until one finds nothing.  A round that finds something and marks nothing, because
what it found has been freed, would be repeated for ever.
-/

namespace LuaCore

/-- The state of a marking. -/
structure Marking (β : Type) where
  heap : Heap β
  strings : Interner
  /-- The values that wait, the next one in front. -/
  gray : List Value
  /-- The weak tables met, in order. -/
  weak : List Handle := []
  /-- The tables with weak keys met, in order. -/
  ephemerons : List Handle := []

namespace Marking

variable {β : Type}

/-- The number of objects without a mark. -/
def unmarked (m : Marking β) : Nat := m.heap.unmarked m.strings

/-- Puts values in front of those that wait, the last one foremost. -/
def push (m : Marking β) (vs : List Value) : Marking β := { m with gray := vs.reverse ++ m.gray }

/-- Notes a table that is weak. -/
def note (m : Marking β) (h : Handle) (t : Table) : Marking β :=
  { m with
    weak := if t.weakMode.isWeak then m.weak ++ [h] else m.weak
    ephemerons := if t.weakMode.keys then m.ephemerons ++ [h] else m.ephemerons }

/-- Looks through an object that has just got its mark. -/
def scan (m : Marking β) (v : Value) : Marking β :=
  let m := m.push (m.heap.references v)
  match v with
  | .table h =>
    match m.heap.tables.get? h with
    | some t => m.note h t
    | none => m
  | _ => m

@[simp] theorem heap_scan (m : Marking β) (v : Value) : (m.scan v).heap = m.heap := by
  cases v <;> simp only [scan, push]
  split <;> rfl

@[simp] theorem strings_scan (m : Marking β) (v : Value) : (m.scan v).strings = m.strings := by
  cases v <;> simp only [scan, push]
  split <;> rfl

/-- Marks until nothing waits. -/
def propagate (m : Marking β) : Marking β :=
  match hg : m.gray with
  | [] => m
  | v :: rest =>
    have hrest : rest.length < m.gray.length := by simp [hg]
    match hm : m.heap.mark? m.strings v with
    | none => propagate { m with gray := rest }
    | some (heap, strings) =>
      have hfewer := Heap.unmarked_mark? hm
      propagate (scan { m with heap := heap, strings := strings, gray := rest } v)
termination_by (m.unmarked, m.gray.length)
decreasing_by
  · exact Prod.Lex.right _ hrest
  · refine Prod.Lex.left _ _ ?_
    simp only [unmarked, heap_scan, strings_scan]
    exact hfewer

/-! ### Weak keys -/

/-- The values of a table with weak keys that are reachable through their keys and have no mark. -/
def released (m : Marking β) (t : Table) : List Value :=
  t.entries.filterMap fun (k, v) =>
    if m.heap.isDead k || m.heap.isMarked m.strings v then none
    else if !t.weakMode.values || !v.isCollectable then some v else none

/-- What a round over the tables with weak keys finds. -/
def found (m : Marking β) : List Value :=
  m.ephemerons.flatMap fun h => ((m.heap.tables.get? h).map m.released).getD []

/-- A round: marks what is found. -/
def round (m : Marking β) : Marking β := (m.push m.found).propagate

/-- Repeats rounds until one finds nothing; nothing if there is no end to them. -/
def settle (m : Marking β) : Option (Marking β) :=
  if m.found.isEmpty then some m
  else if m.round.unmarked < m.unmarked then m.round.settle
  else none
termination_by m.unmarked

end Marking

end LuaCore
