import LuaCore.Heap.Object
import LuaCore.Interner
import LuaCore.Table.Traversal
import LuaCore.Table.Weak

/-!
The heap: an arena for each kind of collectable object.  Strings are stored apart, in the interner.
-/

namespace LuaCore

/-- The heap, for functions with bodies in `β`. -/
structure Heap (β : Type) where
  tables : Arena Table := .empty
  functions : Arena (Function β) := .empty
  userdata : Arena Userdata := .empty
  threads : Arena Thread := .empty

namespace Heap

variable {β : Type}

instance : Inhabited (Heap β) := ⟨{}⟩

/-- Whether what a value refers to is stored.  Values that refer to nothing always count as live. -/
def isLive (heap : Heap β) (strings : Interner) : Value → Bool
  | .string h => strings.contains h
  | .table h => heap.tables.contains h
  | .function h => heap.functions.contains h
  | .userdata h => heap.userdata.contains h
  | .thread h => heap.threads.contains h
  | _ => true

/-! ### Marks -/

/-- Whether what a value refers to is marked.  Values that refer to nothing count as marked. -/
def isMarked (heap : Heap β) (strings : Interner) : Value → Bool
  | .string h => strings.isMarked h
  | .table h => heap.tables.isMarked h
  | .function h => heap.functions.isMarked h
  | .userdata h => heap.userdata.isMarked h
  | .thread h => heap.threads.isMarked h
  | _ => true

/-- A collectable object that is not marked. -/
def isDead (heap : Heap β) : Value → Bool
  | .table h => !heap.tables.isMarked h
  | .function h => !heap.functions.isMarked h
  | .userdata h => !heap.userdata.isMarked h
  | .thread h => !heap.threads.isMarked h
  | _ => false

/-- Marks the object of a value; nothing if it is marked, or if there is none. -/
def mark? (heap : Heap β) (strings : Interner) : Value → Option (Heap β × Interner)
  | .string h => (strings.mark? h).map fun s => (heap, s)
  | .table h => (heap.tables.mark? h).map fun a => ({ heap with tables := a }, strings)
  | .function h => (heap.functions.mark? h).map fun a => ({ heap with functions := a }, strings)
  | .userdata h => (heap.userdata.mark? h).map fun a => ({ heap with userdata := a }, strings)
  | .thread h => (heap.threads.mark? h).map fun a => ({ heap with threads := a }, strings)
  | _ => none

def clearMarks (heap : Heap β) : Heap β where
  tables := heap.tables.clearMarks
  functions := heap.functions.clearMarks
  userdata := heap.userdata.clearMarks
  threads := heap.threads.clearMarks

/-- The number of objects and strings without a mark. -/
def unmarked (heap : Heap β) (strings : Interner) : Nat :=
  heap.tables.unmarked + heap.functions.unmarked + heap.userdata.unmarked + heap.threads.unmarked +
    strings.unmarked

theorem unmarked_mark? {heap heap' : Heap β} {strings strings' : Interner} {v : Value}
    (h : heap.mark? strings v = some (heap', strings')) :
    heap'.unmarked strings' < heap.unmarked strings := by
  cases v <;> simp only [mark?, Option.map_eq_some_iff, reduceCtorEq] at h <;>
    obtain ⟨a, ha, he⟩ := h <;> cases he
  case string => have := Interner.unmarked_mark? ha; simp only [unmarked]; omega
  all_goals have := Arena.unmarked_mark? ha; simp only [unmarked]; omega

/-! ### References -/

/-- What a table keeps alive by itself, under its mode: its metatable, the keys that are not weak, and
the values that are not weak and do not wait for their keys. -/
def tableReferences (t : Table) : List Value :=
  (match t.metatable with
    | some h => [.table h]
    | none => []) ++
  t.entries.flatMap fun (k, v) =>
    let keepsKey := !t.weakMode.keys || !k.isCollectable
    let keepsValue := !t.weakMode.values || !v.isCollectable
    (if keepsKey then [k] else []) ++ (if keepsValue && keepsKey then [v] else [])

/-- What the object of a value keeps alive by itself. -/
def references (heap : Heap β) : Value → List Value
  | .table h => ((heap.tables.get? h).map tableReferences).getD []
  | .function h => ((heap.functions.get? h).map Function.captures).getD []
  | .userdata h =>
    match heap.userdata.get? h with
    | some u => (match u.metatable with
        | some m => [.table m]
        | none => []) ++ [u.userValue]
    | none => []
  | .thread h => ((heap.threads.get? h).map fun t => [t.body]).getD []
  | _ => []

/-! ### Weak modes -/

/-- The mode string that a table's metatable declares. -/
def modeString? (heap : Heap β) (modeName : Handle) (t : Table) : Option Handle :=
  match t.metatable.bind fun h => heap.tables.get? h with
  | some mt =>
    match mt.getName modeName with
    | .string s => some s
    | _ => none
  | none => none

/-- The mode that a table's metatable declares. -/
def declaredMode (heap : Heap β) (strings : Interner) (modeName : Handle) (t : Table) : WeakMode :=
  match (heap.modeString? modeName t).bind strings.get? with
  | some b => .ofBytes b
  | none => .strong

/-- The heap with every table under the mode that its metatable declares.  Without the name for modes
in the interner nothing declares one.  A mode string that has been freed cannot be read. -/
def refreshModes (heap : Heap β) (strings : Interner) : Except Stop (Heap β) :=
  match strings.find? (Bytes.ofString "__mode") with
  | none => .ok { heap with tables := heap.tables.map fun t => { t with weakMode := .strong } }
  | some name =>
    let unreadable := heap.tables.entries.any fun (_, t) =>
      match heap.modeString? name t with
      | some s => !strings.contains s
      | none => false
    if unreadable then .error (.freed .string)
    else .ok { heap with
      tables := heap.tables.map fun t => { t with weakMode := heap.declaredMode strings name t } }

end Heap

end LuaCore
