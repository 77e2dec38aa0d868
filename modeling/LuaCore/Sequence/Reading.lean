import LuaCore.Sequence.Basic

/-!
Reading a sequence against a ledger.

To read behind its own values, a sequence passes on to the results of its deferred call, which may end
in a deferred call in turn.  Each such step is a hop.  As long as no results lead back to their own
call, there are at most as many hops as there are calls in the ledger; a reading that needs more has
no end, and gives nothing.

Each reading is first given for one sequence, with what is to be done about the results of its call.
-/

namespace LuaCore

namespace Sequence

/-! ### Counting -/

/-- The number of values, where `later` counts the results of a call. -/
def countWith (l : Ledger) (later : Sequence → Option Nat) : Sequence → Option Nat
  | empty => some 0
  | one _ => some 1
  | pair _ _ => some 2
  | slice values start _ more => (more.countWith l later).map (values.size - start + ·)
  | prepend _ rest => (rest.countWith l later).map (1 + ·)
  | ofCall c =>
    match l.result? c with
    | none => some 0
    | some r => later r

/-- The number of values within a number of hops. -/
def countIn? (l : Ledger) : (hops : Nat) → Sequence → Option Nat
  | 0 => countWith l fun _ => none
  | n + 1 => countWith l (countIn? l n)

/-- The number of values. -/
def count? (l : Ledger) (s : Sequence) : Option Nat := countIn? l l.size s

/-! ### Single values -/

/-- The value at position `i`, counted from one, where `later` reads the results of a call; nil behind
the end. -/
def getWith (l : Ledger) (later : Sequence → Nat → Option Value) : Sequence → Nat → Option Value
  | empty, _ => some .nil
  | one v, i => some (if i = 1 then v else .nil)
  | pair v w, i => some (if i = 1 then v else if i = 2 then w else .nil)
  | slice values start inside more, i =>
    if h : i ≤ values.size - start then
      have : start + i - 1 < values.size := by omega
      some values[start + i - 1]
    else
      more.getWith l later (i - (values.size - start))
  | prepend v rest, i => if i = 1 then some v else rest.getWith l later (i - 1)
  | ofCall c, i =>
    match l.result? c with
    | none => some .nil
    | some r => later r i

/-- The value at a position within a number of hops. -/
def getIn? (l : Ledger) : (hops : Nat) → Sequence → Nat → Option Value
  | 0 => getWith l fun _ _ => none
  | n + 1 => getWith l (getIn? l n)

/-- The value at position `i`, counted from one; nil where there is none.  Results that lead back to
their own call bring at least one value in each round, so that `i` hops more than there are calls
reach as far as any number. -/
def get? (l : Ledger) (s : Sequence) (i : Nat) : Option Value :=
  if i = 0 then some .nil else getIn? l (l.size + i) s i

/-- Whether there is a value, nil included, at position `i`. -/
def hasValue? (l : Ledger) (s : Sequence) (i : Nat) : Option Bool :=
  (s.count? l).map fun n => 1 ≤ i && i ≤ n

/-- All values, one after the other. -/
def values? (l : Ledger) (s : Sequence) : Option (List Value) := do
  let n ← s.count? l
  (List.range n).mapM fun i => s.get? l (i + 1)

/-! ### Parts -/

/-- The sequence from position `k` on, where `later` cuts the results of a call. -/
def startingWith (l : Ledger) (later : Sequence → Nat → Option Sequence) (s : Sequence) (k : Nat) :
    Option Sequence :=
  if k ≤ 1 then some s
  else
    match s with
    | empty => some empty
    | one _ => some empty
    | pair _ w => some (if k = 2 then one w else empty)
    | slice values start inside more =>
      if h : k ≤ values.size - start then
        some (slice values (start + k - 1) (by omega) more)
      else
        more.startingWith l later (k - (values.size - start))
    | prepend _ rest => rest.startingWith l later (k - 1)
    | ofCall c =>
      match l.result? c with
      | none => some empty
      | some r => later r k

/-- The sequence from a position on, within a number of hops. -/
def startingIn? (l : Ledger) : (hops : Nat) → Sequence → Nat → Option Sequence
  | 0 => startingWith l fun _ _ => none
  | n + 1 => startingWith l (startingIn? l n)

/-- The sequence from position `start` on.  A deferred call stays as it is, unless its own values are
cut; a call that has not been made has none to cut. -/
def startingAt? (l : Ledger) (s : Sequence) (start : Nat) : Option Sequence :=
  startingIn? l (l.size + start) s start

/-! ### Putting together -/

/-- Values in front of a sequence.  Nothing is kept of a sequence without values, unless it is a call,
which may bring values later. -/
def after? (l : Ledger) (s : Sequence) : List Value → Option Sequence
  | [] => some s
  | v :: vs => do
    let n ← s.count? l
    if n = 0 ∧ s.call? = none then return ofList (v :: vs)
    else return slice (v :: vs).toArray 0 (by simp) s

/-- A sequence of the values as they are now, which no deferred call can change. -/
def snapshot? (l : Ledger) : Sequence → Option Sequence
  | empty => some empty
  | one v => some (one v)
  | pair v w => some (pair v w)
  | s => (s.values? l).map ofList

end Sequence

end LuaCore
