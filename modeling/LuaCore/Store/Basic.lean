import LuaCore.Config.Basic
import LuaCore.Event
import LuaCore.Heap.Collect

/-!
The store: the heap and the interner, with what stands beside them for the whole life of a state: the
names of the events, the metatables that the values of a kind share, the registry, and the
configuration.

Operations on the store are written in `StoreM`.  They may stop: with an error, or because an object
is needed that has been freed.
-/

namespace LuaCore

/-- The metatables shared by all values of a kind.  Tables and userdata have their own instead. -/
structure SharedMetatables where
  nil : Option Handle := none
  boolean : Option Handle := none
  number : Option Handle := none
  string : Option Handle := none
  function : Option Handle := none
  thread : Option Handle := none
deriving DecidableEq, Inhabited, Repr

namespace SharedMetatables

/-- The metatable of a kind. -/
def get? (s : SharedMetatables) : Kind → Option Handle
  | .nil => s.nil
  | .boolean => s.boolean
  | .number => s.number
  | .string => s.string
  | .function => s.function
  | .thread => s.thread
  | .table | .userdata => none

/-- The metatables with that of a kind replaced; nothing for the kinds that have none. -/
def set? (s : SharedMetatables) (k : Kind) (mt : Option Handle) : Option SharedMetatables :=
  match k with
  | .nil => some { s with nil := mt }
  | .boolean => some { s with boolean := mt }
  | .number => some { s with number := mt }
  | .string => some { s with string := mt }
  | .function => some { s with function := mt }
  | .thread => some { s with thread := mt }
  | .table | .userdata => none

/-- The metatables that are there. -/
def toList (s : SharedMetatables) : List Handle :=
  [s.nil, s.boolean, s.number, s.string, s.function, s.thread].filterMap id

end SharedMetatables

/-- The store, for functions with bodies in `β`. -/
structure Store (β : Type) where
  heap : Heap β := {}
  strings : Interner := .empty
  /-- The names of the events, in the order of `Event.all`. -/
  names : List Handle := []
  shared : SharedMetatables := {}
  /-- A table for the host's own use, always reachable. -/
  registry : Handle := default
  config : Config := {}

/-- A computation on the store. -/
abbrev StoreM (β : Type) := EStateM Stop (Store β)

namespace Store

variable {β : Type}

/-- Interns byte strings in order. -/
def internAll (strings : Interner) : List Bytes → Interner × List Handle
  | [] => (strings, [])
  | b :: r =>
    let (strings, h) := strings.intern b
    let (strings, hs) := internAll strings r
    (strings, h :: hs)

/-- A fresh store: the names of the events are interned, and the registry is the first table. -/
def init (config : Config) : Store β :=
  let (strings, names) := internAll .empty (Event.all.map fun e => Bytes.ofString e.key)
  let (tables, registry) := Arena.empty.alloc Table.empty
  { heap := { tables := tables }, strings := strings, names := names, registry := registry,
    config := config }

/-- The string that names an event. -/
def nameOf (s : Store β) (e : Event) : Handle := s.names.getD e.place default

/-- Raises an error. -/
def fail {α : Type} (e : Error) : StoreM β α := throw (.error e)

/-- Turns a refusal into an error. -/
def ofExcept {α : Type} : Except Error α → StoreM β α
  | .ok a => pure a
  | .error e => fail e

/-- Turns an outcome into a computation. -/
def ofOutcome {α : Type} : Except Stop α → StoreM β α
  | .ok a => pure a
  | .error e => throw e

/-! ### Objects behind handles -/

/-- The object of a handle; without one the computation stops. -/
def require {α : Type} (kind : ObjectKind) : Option α → StoreM β α
  | some a => pure a
  | none => throw (.freed kind)

def table (h : Handle) : StoreM β Table := do require .table ((← get).heap.tables.get? h)

def function (h : Handle) : StoreM β (Function β) := do
  require .function ((← get).heap.functions.get? h)

def userdata (h : Handle) : StoreM β Userdata := do
  require .userdata ((← get).heap.userdata.get? h)

def thread (h : Handle) : StoreM β Thread := do require .thread ((← get).heap.threads.get? h)

/-- The bytes of a string. -/
def bytes (h : Handle) : StoreM β Bytes := do require .string ((← get).strings.get? h)

/-- The bytes of a string value; nothing for other values. -/
def bytes? : Value → StoreM β (Option Bytes)
  | .string h => some <$> bytes h
  | _ => pure none

def putTable (h : Handle) (t : Table) : StoreM β Unit :=
  modify fun s => { s with heap.tables := s.heap.tables.put h t }

def putUserdata (h : Handle) (u : Userdata) : StoreM β Unit :=
  modify fun s => { s with heap.userdata := s.heap.userdata.put h u }

def putThread (h : Handle) (t : Thread) : StoreM β Unit :=
  modify fun s => { s with heap.threads := s.heap.threads.put h t }

/-! ### New objects -/

/-- The string with the given content. -/
def newString (b : Bytes) : StoreM β Value :=
  modifyGet fun s =>
    let (strings, h) := s.strings.intern b
    (.string h, { s with strings := strings })

/-- A place for a table, with the given content. -/
def allocTable (t : Table) : StoreM β Handle :=
  modifyGet fun s =>
    let (tables, h) := s.heap.tables.alloc t
    (h, { s with heap.tables := tables })

/-- A table with the given content. -/
def newTable (t : Table) : StoreM β Value := .table <$> allocTable t

/-- An empty table, under the hints of the configuration. -/
def newEmptyTable : StoreM β Value := do
  let c := (← get).config
  newTable (.new c.tableArrayHint c.tableHashHint)

def newFunction (f : Function β) : StoreM β Value :=
  modifyGet fun s =>
    let (functions, h) := s.heap.functions.alloc f
    (.function h, { s with heap.functions := functions })

def newUserdata (p : Payload) : StoreM β Value :=
  modifyGet fun s =>
    let (userdata, h) := s.heap.userdata.alloc { payload := p }
    (.userdata h, { s with heap.userdata := userdata })

def newThread (body : Value) : StoreM β Value :=
  modifyGet fun s =>
    let (threads, h) := s.heap.threads.alloc { body := body }
    (.thread h, { s with heap.threads := threads })

/-! ### Userdata and threads -/

/-- The handle of a value of the expected kind. -/
def expectUserdata : Value → StoreM β Handle
  | .userdata h => pure h
  | v => fail (.type (.expected "userdata" v.kind))

def expectThread : Value → StoreM β Handle
  | .thread h => pure h
  | v => fail (.type (.expected "thread" v.kind))

def userValue (v : Value) : StoreM β Value := do
  return (← userdata (← expectUserdata v)).userValue

def setUserValue (v w : Value) : StoreM β Unit := do
  let h ← expectUserdata v
  let u ← userdata h
  putUserdata h { u with userValue := w }

def threadStatus (v : Value) : StoreM β ThreadStatus := do
  return (← thread (← expectThread v)).status

def setThreadStatus (v : Value) (status : ThreadStatus) : StoreM β Unit := do
  let h ← expectThread v
  let t ← thread h
  putThread h { t with status := status }

/-- The payload of a userdata; nothing for other values. -/
def payload? : Value → StoreM β (Option Payload)
  | .userdata h => return some (← userdata h).payload
  | _ => pure none

/-- Extends the payload of a userdata by another of its type, and gives the result; nothing for other
types and other values. -/
def extendPayload (v : Value) (more : Payload) : StoreM β (Option Payload) := do
  match v with
  | .userdata h =>
    let u ← userdata h
    match u.payload.extend? more with
    | some p =>
      putUserdata h { u with payload := p }
      return some p
    | none => return none
  | _ => return none

/-- The name of a function; nothing for other values. -/
def functionName? : Value → StoreM β (Option String)
  | .function h => return some (← function h).name
  | _ => pure none

/-! ### Collection -/

/-- What a collection starts from: the given values, the registry, the shared metatables, and the names
of the events. -/
def roots (s : Store β) (vs : List Value) : List Value :=
  vs ++ [.table s.registry] ++ s.shared.toList.map .table ++ s.names.map .string

/-- Frees what the roots do not reach. -/
def collect (vs : List Value) : StoreM β CollectStats := do
  let s ← get
  match s.heap.collect s.strings (s.roots vs) with
  | .ok (heap, strings, stats) =>
    set { s with heap := heap, strings := strings }
    return stats
  | .error e => throw e

/-- Frees the objects that the given values do not reach, and nothing else.  Strings are left alone,
and no mode is declared. -/
def collectObjects (vs : List Value) : StoreM β CollectStats := do
  let s ← get
  match s.heap.collect .empty vs with
  | .ok (heap, _, stats) =>
    set { s with heap := heap }
    return stats
  | .error e => throw e

/-- Whether what a value refers to is stored. -/
def isLive (s : Store β) (v : Value) : Bool := s.heap.isLive s.strings v

end Store

end LuaCore
