/-!
Finite maps that keep the order in which their keys were first bound.
-/

namespace LuaCore

/-- A finite map as the list of its bindings, oldest first. -/
structure OrderedMap (κ ν : Type) where
  entries : List (κ × ν)
deriving Inhabited, Repr

namespace OrderedMap

variable {κ ν : Type} [DecidableEq κ]

def empty : OrderedMap κ ν := ⟨[]⟩

def size (m : OrderedMap κ ν) : Nat := m.entries.length

/-- The value bound to a key. -/
def find? (m : OrderedMap κ ν) (k : κ) : Option ν := m.entries.lookup k

def contains (m : OrderedMap κ ν) (k : κ) : Bool := (m.find? k).isSome

/-- The place of a key in the order. -/
def indexOf? (m : OrderedMap κ ν) (k : κ) : Option Nat :=
  m.entries.findIdx? fun e => e.1 == k

/-- Binds a key: in its place if it is bound, and else behind all others. -/
def insert (m : OrderedMap κ ν) (k : κ) (v : ν) : OrderedMap κ ν :=
  if m.contains k then ⟨m.entries.map fun e => if e.1 = k then (e.1, v) else e⟩
  else ⟨m.entries ++ [(k, v)]⟩

/-- Removes a key; the others stay in order. -/
def erase (m : OrderedMap κ ν) (k : κ) : OrderedMap κ ν :=
  ⟨m.entries.filter fun e => e.1 ≠ k⟩

/-- Keeps the bindings whose value passes a test. -/
def filterValues (m : OrderedMap κ ν) (p : ν → Bool) : OrderedMap κ ν :=
  ⟨m.entries.filter fun e => p e.2⟩

theorem size_erase_lt {m : OrderedMap κ ν} {k : κ} {v : ν} (h : m.find? k = some v) :
    (m.erase k).size < m.size := by
  obtain ⟨l⟩ := m
  simp only [find?, size, erase] at *
  induction l with
  | nil => simp at h
  | cons e l ih =>
    obtain ⟨a, b⟩ := e
    by_cases hk : a = k
    · subst hk
      have := List.length_filter_le (fun e => decide (e.1 ≠ a)) l
      simp only [ne_eq, decide_not] at this
      simp
      omega
    · have hne : (k == a) = false := by simpa using fun h => hk h.symm
      simp only [List.lookup_cons, hne] at h
      simpa [hk] using ih h

end OrderedMap

end LuaCore
