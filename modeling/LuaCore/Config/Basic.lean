import LuaCore.Config.Json

/-!
Configuration: the bounds of a state and its hints, and their JSON form.
-/

namespace LuaCore

/-- The bounds of a state, and hints for the sizes of its tables. -/
structure Config where
  /-- How many calls may be inside one another. -/
  maxCallDepth : Nat := 200
  /-- How many links a chain of metatables may have. -/
  maxTagLoop : Nat := 100
  /-- The size that the array part of a new table is expected to reach. -/
  tableArrayHint : Nat := 0
  /-- The size that the hash part of a new table is expected to reach. -/
  tableHashHint : Nat := 0
deriving DecidableEq, Inhabited, Repr

namespace Config

/-- The names of the fields, in order. -/
def fieldNames : List String :=
  ["max_call_depth", "max_tag_loop", "table_array_hint", "table_hash_hint"]

/-- The values of the fields, in order. -/
def toList (c : Config) : List Nat :=
  [c.maxCallDepth, c.maxTagLoop, c.tableArrayHint, c.tableHashHint]

/-- The configuration with the given values, and the default where there is none. -/
def ofValues (value? : Nat → Option Nat) : Config :=
  let d : Config := {}
  ⟨(value? 0).getD d.maxCallDepth, (value? 1).getD d.maxTagLoop,
    (value? 2).getD d.tableArrayHint, (value? 3).getD d.tableHashHint⟩

/-- A field's value is a natural number below `2 ^ 64`. -/
def fieldValue? : Json → Option Nat
  | .number (some n) => if n < UInt64.size then some n else none
  | _ => none

/-- Reads the fields of an object.  A known field may stand there once; the others are passed over. -/
def ofFields? (fields : List (Option String × Json)) : Option Config := do
  let named ← fields.mapM fun f => f.1.map fun k => (k, f.2)
  let known := named.filter fun f => fieldNames.contains f.1
  let keys := known.map Prod.fst
  if keys.eraseDups.length ≠ keys.length then none
  let values ← known.mapM fun f => (fieldValue? f.2).map fun n => (f.1, n)
  some (ofValues fun i => (fieldNames[i]?).bind fun k => values.lookup k)

/-- Reads an array that gives the fields in order; those at the end may be missing. -/
def ofItems? (items : List Json) : Option Config := do
  if items.length > fieldNames.length then none
  let values ← items.mapM fieldValue?
  some (ofValues fun i => values[i]?)

/-- The configuration of a JSON document. -/
def ofJson? : Json → Option Config
  | .object fields => ofFields? fields
  | .array items => ofItems? items
  | _ => none

/-- The configuration of a JSON text. -/
def parse? (text : String) : Option Config := (Json.parse? text).bind ofJson?

/-- The JSON text of a configuration. -/
def text (c : Config) : String :=
  let fields := (fieldNames.zip c.toList).map fun (k, n) => "\"" ++ k ++ "\":" ++ toString n
  "\x7b" ++ ",".intercalate fields ++ "\x7d"

end Config

end LuaCore
