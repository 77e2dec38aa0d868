import LuaCore.Value

/-!
Sequences of values: the arguments and the results of calls.

Up to two values lie in the sequence itself.  More of them lie in an array that sequences share, each
with its own start, so that leaving out the first values, and putting others in front, copies nothing.

A sequence may end in a deferred call.  The call stands for its results, and for no values as long as
it has not been made.  Deferred calls are shared: they are entered in a ledger, and a sequence holds
only the number of its call, so that the results, once they are entered, show in every sequence that
ends in the call.
-/

namespace LuaCore

/-- The number of a deferred call in the ledger. -/
structure CallId where
  index : Nat
deriving DecidableEq, Inhabited, Repr

/-- A sequence of values. -/
inductive Sequence where
  | empty
  | one (v : Value)
  | pair (v w : Value)
  /-- The values of an array from `start` on, which are one at least, and what follows them. -/
  | slice (values : Array Value) (start : Nat) (inside : start < values.size) (more : Sequence)
  /-- A value in front of a sequence. -/
  | prepend (v : Value) (rest : Sequence)
  /-- The results of a deferred call. -/
  | ofCall (c : CallId)
deriving DecidableEq, Inhabited, Repr

namespace Sequence

/-- The sequence of a list of values. -/
def ofList : List Value → Sequence
  | [] => empty
  | [v] => one v
  | [v, w] => pair v w
  | u :: v :: w :: r => slice (u :: v :: w :: r).toArray 0 (by simp) empty

/-- A value in front of a sequence. -/
def cons (v : Value) : Sequence → Sequence
  | empty => one v
  | one w => pair v w
  | s => prepend v s

/-- The call of a sequence that is a deferred call and nothing else. -/
def call? : Sequence → Option CallId
  | ofCall c => some c
  | _ => none

@[simp] theorem call?_ofCall (c : CallId) : (ofCall c).call? = some c := rfl

theorem call?_eq_some_iff {s : Sequence} {c : CallId} : s.call? = some c ↔ s = ofCall c := by
  cases s <;> simp [call?]

end Sequence

/-- A deferred call, with its results once it has been made. -/
structure DeferredCall where
  callee : Value
  args : Sequence
  result : Option Sequence := none
deriving DecidableEq, Inhabited, Repr

/-- What is known of a sequence that may be a deferred call. -/
inductive Standing where
  /-- It is no call, or its call has been made: these are the results. -/
  | results (s : Sequence)
  /-- Its call is still to be made. -/
  | outstanding (c : CallId) (callee : Value) (args : Sequence)
deriving DecidableEq, Repr

/-- The deferred calls, by number. -/
structure Ledger where
  calls : Array DeferredCall := #[]
deriving Inhabited

namespace Ledger

def empty : Ledger := {}

def size (l : Ledger) : Nat := l.calls.size

def get? (l : Ledger) (c : CallId) : Option DeferredCall := l.calls[c.index]?

/-- The results of a call; nothing if it has not been made. -/
def result? (l : Ledger) (c : CallId) : Option Sequence := (l.get? c).bind DeferredCall.result

/-- The deferred call that a sequence is, with its number; nothing for any other sequence. -/
def callOf? (l : Ledger) (s : Sequence) : Option (CallId × DeferredCall) :=
  s.call?.bind fun c => (l.get? c).map fun d => (c, d)

/-- How a sequence stands; nothing if its call is not in the ledger. -/
def standing? (l : Ledger) (s : Sequence) : Option Standing :=
  match s.call? with
  | none => some (.results s)
  | some c =>
    (l.get? c).map fun d =>
      match d.result with
      | some r => .results r
      | none => .outstanding c d.callee d.args

/-- Enters a call under the next number. -/
def add (l : Ledger) (callee : Value) (args : Sequence) : Ledger × CallId :=
  let c : CallId := ⟨l.calls.size⟩
  ({ l with calls := l.calls.push { callee := callee, args := args } }, c)

/-- Enters the results of a call, in place of those that may be there. -/
def record (l : Ledger) (s : Sequence) (c : CallId) : Ledger :=
  { l with calls := l.calls.modify c.index fun d => { d with result := some s } }

/-- Enters the same results for several calls. -/
def recordAll (l : Ledger) (s : Sequence) (cs : List CallId) : Ledger :=
  cs.foldl (fun l c => l.record s c) l

end Ledger

end LuaCore
