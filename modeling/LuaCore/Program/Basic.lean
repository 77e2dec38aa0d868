import LuaCore.Sequence.Reading
import LuaCore.Store.Basic

/-!
Host programs.

A program is a tree of requests with what follows each answer: work on the store, a look at the
ledger, a new deferred call, a call, or work on the host's own data.  Bodies of functions are programs,
and so are the operations that may call one.  As a tree a program is data: it has no access to the
depth of calls, nor to the results in the ledger, but through its requests.
-/

namespace LuaCore

/-- A call that a program asks for. -/
inductive Request where
  /-- A function on arguments, with all that it defers. -/
  | invoke (callee : Value) (args : Sequence)
  /-- The deferred call that a sequence may be. -/
  | settle (s : Sequence)
deriving Repr

/-- A program that ends in an `α`, for functions with bodies in `β` and a host with data in `σ`. -/
inductive Program (β σ α : Type) : Type 1 where
  | done (a : α)
  | stop (s : Stop)
  | onStore {ι : Type} (x : StoreM β ι) (next : Except Error ι → Program β σ α)
  | onHost {ι : Type} (f : σ → ι × σ) (next : ι → Program β σ α)
  | look (next : Ledger → Program β σ α)
  | delay (callee : Value) (args : Sequence) (next : Sequence → Program β σ α)
  | request (r : Request) (next : Except Error Sequence → Program β σ α)

namespace Program

variable {β σ α γ : Type}

instance : Inhabited (Program β σ α) := ⟨.stop .endless⟩

/-- One program after another. -/
def bind : Program β σ α → (α → Program β σ γ) → Program β σ γ
  | done a, f => f a
  | stop s, _ => stop s
  | onStore x next, f => onStore x fun r => (next r).bind f
  | onHost g next, f => onHost g fun r => (next r).bind f
  | look next, f => look fun l => (next l).bind f
  | delay callee args next, f => delay callee args fun s => (next s).bind f
  | request q next, f => request q fun r => (next r).bind f

instance : Monad (Program β σ) where
  pure := done
  bind := bind

theorem bind_done (p : Program β σ α) : p.bind done = p := by
  induction p with
  | done a => rfl
  | stop s => rfl
  | onStore x next ih => exact congrArg (onStore x) (funext ih)
  | onHost g next ih => exact congrArg (onHost g) (funext ih)
  | look next ih => exact congrArg look (funext ih)
  | delay callee args next ih => exact congrArg (delay callee args) (funext ih)
  | request q next ih => exact congrArg (request q) (funext ih)

theorem bind_assoc {δ : Type} (p : Program β σ α) (f : α → Program β σ γ)
    (g : γ → Program β σ δ) : (p.bind f).bind g = p.bind fun a => (f a).bind g := by
  induction p with
  | done a => rfl
  | stop s => rfl
  | onStore x next ih => exact congrArg (onStore x) (funext ih)
  | onHost h next ih => exact congrArg (onHost h) (funext ih)
  | look next ih => exact congrArg look (funext ih)
  | delay callee args next ih => exact congrArg (delay callee args) (funext ih)
  | request q next ih => exact congrArg (request q) (funext ih)

/-! ### Errors -/

/-- Raises an error. -/
def fail (e : Error) : Program β σ α := stop (.error e)

/-- Turns a refusal into an error. -/
def ofExcept : Except Error α → Program β σ α
  | .ok a => done a
  | .error e => fail e

/-- Catches an error. -/
def attempt : Program β σ α → Program β σ (Except Error α)
  | done a => done (.ok a)
  | stop (.error e) => done (.error e)
  | stop s => stop s
  | onStore x next => onStore x fun r => (next r).attempt
  | onHost g next => onHost g fun r => (next r).attempt
  | look next => look fun l => (next l).attempt
  | delay callee args next => delay callee args fun s => (next s).attempt
  | request q next => request q fun r => (next r).attempt

/-! ### Requests -/

/-- Work on the store. -/
def store (x : StoreM β α) : Program β σ α := onStore x ofExcept

/-- Work on the host's data. -/
def host (f : σ → α × σ) : Program β σ α := onHost f done

/-- A reading of the ledger; one that gives nothing has no end. -/
def reading (f : Ledger → Option α) : Program β σ α :=
  look fun l =>
    match f l with
    | some a => done a
    | none => stop .endless

/-- The values of a sequence. -/
def values (s : Sequence) : Program β σ (List Value) := reading s.values?

/-- The number of values of a sequence. -/
def count (s : Sequence) : Program β σ Nat := reading s.count?

/-- The value at a position of a sequence. -/
def valueAt (s : Sequence) (i : Nat) : Program β σ Value := reading fun l => s.get? l i

/-- A call that is not made yet. -/
def defer (callee : Value) (args : Sequence) : Program β σ Sequence := delay callee args done

/-- All results of a call. -/
def invoke (callee : Value) (args : Sequence) : Program β σ Sequence :=
  request (.invoke callee args) ofExcept

/-- The first result of a call. -/
def call (callee : Value) (args : List Value) : Program β σ Value := do
  valueAt (← invoke callee (.ofList args)) 1

/-- Makes the deferred call that a sequence may be, and gives its results; any other sequence is given
as it is. -/
def settle (s : Sequence) : Program β σ Sequence := request (.settle s) ofExcept

end Program

end LuaCore
