import LuaCore.Program.Basic
import LuaCore.Store.Metatable

/-!
Running programs.

A state is the store, the ledger, the number of calls that are under way, and the host's data.  A call
finds the function behind its callee, counts itself, runs the body, and counts itself out again,
whether the body ends well or in an error.

What a body defers is made after the body has ended, at the depth of its caller; so a chain of
deferred calls, however long, is one call deep.  Its last results are entered for every call of the
chain.

A chain of deferred calls need not end, so running takes fuel.  Fuel is spent on calls only, and a run
that has not used it up is the same with more.
-/

namespace LuaCore

/-- The state of a running program. -/
structure State (β σ : Type) where
  store : Store β
  ledger : Ledger := {}
  /-- How many calls are under way. -/
  depth : Nat := 0
  /-- The host's data. -/
  host : σ

/-- A computation on states. -/
abbrev RunM (β σ : Type) := EStateM Stop (State β σ)

/-- What the bodies of functions do, given the captures of the function and the arguments. -/
abbrev Host (β σ : Type) := β → List Value → Sequence → Program β σ Sequence

namespace Store

variable {β : Type}

/-- The function behind a callee, and its arguments: a value that is no function is called through its
handler, with itself in front of the arguments. -/
def resolve : Nat → Value → Sequence → StoreM β (Function β × Sequence)
  | 0, _, _ => fail (.runtime .callChain)
  | _ + 1, .function h, args => return (← function h, args)
  | n + 1, v, args => do
    match ← handler? v .call with
    | some h => resolve n h (args.cons v)
    | none => fail (.type (.call v.kind))

end Store

namespace State

variable {β σ : Type}

/-- A state with a fresh store. -/
def init (config : Config) (host : σ) : State β σ := { store := .init config, host := host }

/-- Whether another call would be one too many. -/
def isFull (s : State β σ) : Bool := s.store.config.maxCallDepth ≤ s.depth

end State

namespace RunM

variable {β σ α : Type}

/-- Work on the store alone. -/
def ofStore (x : StoreM β α) : RunM β σ α := fun s =>
  match x s.store with
  | .ok a t => .ok a { s with store := t }
  | .error e t => .error e { s with store := t }

/-- Catches an error; other stops go on. -/
def attempt (x : RunM β σ α) : RunM β σ (Except Error α) := fun s =>
  match x s with
  | .ok a t => .ok (.ok a) t
  | .error (.error e) t => .ok (.error e) t
  | .error e t => .error e t

/-- Raises the error of a refusal. -/
def ofExcept : Except Error α → RunM β σ α
  | .ok a => pure a
  | .error e => throw (.error e)

/-- A computation inside one more call. -/
def inCall (x : RunM β σ α) : RunM β σ α := do
  modify fun s => { s with depth := s.depth + 1 }
  let r ← attempt x
  modify fun s => { s with depth := s.depth - 1 }
  ofExcept r

end RunM

namespace Program

variable {β σ α : Type}

/-- Runs a program, given what to do about the calls that it asks for. -/
def runWith (perform : Request → RunM β σ Sequence) : Program β σ α → RunM β σ α
  | done a => pure a
  | stop e => throw e
  | onStore x next => do
    let r ← RunM.attempt (RunM.ofStore x)
    (next r).runWith perform
  | onHost f next => do
    let r ← modifyGet fun s => let (r, h) := f s.host; (r, { s with host := h })
    (next r).runWith perform
  | look next => do
    (next (← get).ledger).runWith perform
  | delay callee args next => do
    let c ← modifyGet fun s => let (l, c) := s.ledger.add callee args; (c, { s with ledger := l })
    (next (.ofCall c)).runWith perform
  | request q next => do
    let r ← RunM.attempt (perform q)
    (next r).runWith perform

end Program

namespace RunM

variable {β σ : Type}

/-- One call: the body of the function behind the callee, one call deeper.  A deferred call among its
results is left as it is. -/
def enter (host : Host β σ) (perform : Request → RunM β σ Sequence) (callee : Value)
    (args : Sequence) : RunM β σ Sequence := do
  let bound := (← get).store.config.maxTagLoop
  let (f, args) ← ofStore (Store.resolve bound callee args)
  if (← get).isFull then throw (.error .stackOverflow)
  inCall ((host f.body f.captures args).runWith perform)

/-- Enters results for the calls passed on the way, and gives them. -/
def finish (passed : List CallId) (s : Sequence) : RunM β σ Sequence := do
  modify fun t => { t with ledger := t.ledger.recordAll s passed }
  return s

/-- Makes the deferred call that a sequence may be, and the calls that it defers in turn, one after the
other, until there are results; these are entered for all calls passed on the way.  A call that is not
in the ledger has none to give. -/
def settle (enter : Value → Sequence → RunM β σ Sequence) (fuel : Nat) (passed : List CallId)
    (s : Sequence) : RunM β σ Sequence := do
  match (← get).ledger.standing? s with
  | none => throw .endless
  | some (.results r) => finish passed r
  | some (.outstanding c callee args) =>
    match fuel with
    | 0 => throw .outOfFuel
    | n + 1 =>
      let r ← enter callee args
      settle enter n (c :: passed) r

/-- Does what a program asks for. -/
def perform (host : Host β σ) : (fuel : Nat) → Request → RunM β σ Sequence
  | 0, _ => throw .outOfFuel
  | n + 1, .invoke callee args => do
    let r ← enter host (perform host n) callee args
    settle (enter host (perform host n)) n [] r
  | n + 1, .settle s => settle (enter host (perform host n)) n [] s

end RunM

namespace Program

variable {β σ α : Type}

/-- Runs a program with a host and fuel. -/
def run (host : Host β σ) (fuel : Nat) (p : Program β σ α) : RunM β σ α :=
  p.runWith (RunM.perform host fuel)

end Program

end LuaCore
