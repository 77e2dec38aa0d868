import LuaCore.Value

/-!
The objects of the heap other than tables: functions, userdata and threads.
-/

namespace LuaCore

/-- A function: its name, the values that its body holds on to, and its body.  What bodies are is left
open; the heap only stores them. -/
structure Function (β : Type) where
  name : String
  captures : List Value
  body : β

/-- A function for a reader. -/
def Function.describe {β : Type} (f : Function β) : String := s!"function({f.name})"

/-- What the host puts into a userdata. -/
inductive Payload where
  | int (i : Int64)
  | text (s : String)
deriving DecidableEq, Repr

/-- The types of payloads. -/
inductive PayloadType where
  | int
  | text
deriving DecidableEq, Repr

namespace PayloadType

/-- The name of a type of payload. -/
def name : PayloadType → String
  | int => "i64"
  | text => "alloc::string::String"

end PayloadType

namespace Payload

def type : Payload → PayloadType
  | int _ => .int
  | text _ => .text

/-- The payload, if it is of the given type. -/
def as? (p : Payload) (t : PayloadType) : Option Payload := if p.type = t then some p else none

/-- Adds to an integer, with wrapping, or appends to a text; nothing if the types differ. -/
def extend? : Payload → Payload → Option Payload
  | int i, int j => some (int (i + j))
  | text s, text t => some (text (s ++ t))
  | _, _ => none

end Payload

/-- A host's data as a value, with a metatable of its own and one value beside it. -/
structure Userdata where
  payload : Payload
  metatable : Option Handle := none
  userValue : Value := .nil

/-- A userdata for a reader. -/
def Userdata.describe (u : Userdata) : String :=
  let mt := match u.metatable with
    | some h => s!"Some({h.text})"
    | none => "None"
  "Userdata \x7b metatable: " ++ mt ++ ", user_value: " ++ u.userValue.describe ++ ", .. \x7d"

/-- The states of a thread. -/
inductive ThreadStatus where
  | suspended
  | running
  | normal
  | dead
deriving DecidableEq, Repr

namespace ThreadStatus

def name : ThreadStatus → String
  | suspended => "suspended"
  | running => "running"
  | normal => "normal"
  | dead => "dead"

/-- The status for a reader. -/
def title : ThreadStatus → String
  | suspended => "Suspended"
  | running => "Running"
  | normal => "Normal"
  | dead => "Dead"

/-- The status of a name. -/
def ofName? (s : String) : Option ThreadStatus :=
  [suspended, running, normal, dead].find? fun t => t.name == s

end ThreadStatus

/-- A thread: what it runs, and its status.  Scheduling is the host's. -/
structure Thread where
  body : Value
  status : ThreadStatus := .suspended

/-- A thread for a reader. -/
def Thread.describe (t : Thread) : String :=
  "Thread \x7b body: " ++ t.body.describe ++ ", status: " ++ t.status.title ++ " \x7d"

end LuaCore
