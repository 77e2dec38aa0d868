/-!
Reading JSON documents.

The reader accepts exactly the JSON grammar.  It keeps of a document what a configuration can use: of
the numbers only those that are plain natural numbers, and of the strings only those that are texts,
which a string with half a surrogate pair is not.
-/

namespace LuaCore

/-- A JSON document. -/
inductive Json where
  | null
  | bool (b : Bool)
  /-- A number; its value is kept if it is written as a natural number. -/
  | number (n : Option Nat)
  /-- A string; its text is kept if it has one. -/
  | string (s : Option String)
  | array (items : List Json)
  | object (fields : List (Option String × Json))
deriving Inhabited

namespace Json

/-- What an object holds under a name: the last of the fields that have it. -/
def field? (name : String) : Json → Option Json
  | object fields => fields.reverse.lookup (some name)
  | _ => none

/-- An object with one field for each name, the last one that it has; any other document as it is. -/
def lastFields : Json → Json
  | object fields => object (keepLast fields)
  | j => j
where
  /-- Drops a field if its name comes again. -/
  keepLast : List (Option String × Json) → List (Option String × Json)
    | [] => []
    | f :: r => if r.any fun g => g.1 == f.1 then keepLast r else f :: keepLast r

def isBlank (c : Char) : Bool := c == ' ' || c == '\n' || c == '\t' || c == '\r'

def skipBlanks (s : List Char) : List Char := s.dropWhile isBlank

/-- Takes the given characters. -/
def expect : List Char → List Char → Option (List Char)
  | [], s => some s
  | c :: cs, d :: s => if c = d then expect cs s else none
  | _ :: _, [] => none

/-! ### Numbers -/

/-- One digit or more. -/
def readDigits (s : List Char) : Option (List Char × List Char) :=
  match s.takeWhile Char.isDigit with
  | [] => none
  | ds => some (ds, s.dropWhile Char.isDigit)

/-- The digits before the point: a zero stands alone. -/
def readWhole (s : List Char) : Option (List Char × List Char) := do
  let (ds, r) ← readDigits s
  if ds.length > 1 && ds.head? == some '0' then none else some (ds, r)

/-- A fraction, if there is one; the first part says so. -/
def readFraction : List Char → Option (Bool × List Char)
  | '.' :: s => (readDigits s).map fun (_, r) => (true, r)
  | s => some (false, s)

/-- An exponent, if there is one; the first part says so. -/
def readExponent : List Char → Option (Bool × List Char)
  | c :: s =>
    if c == 'e' || c == 'E' then
      let s := match s with
        | '+' :: r => r
        | '-' :: r => r
        | r => r
      (readDigits s).map fun (_, r) => (true, r)
    else
      some (false, c :: s)
  | [] => some (false, [])

/-- A sign, if there is one; the first part says so. -/
def readSign : List Char → Bool × List Char
  | '-' :: s => (true, s)
  | s => (false, s)

/-- A number. -/
def readNumber (s : List Char) : Option (Json × List Char) := do
  let (negative, s) := readSign s
  let (ds, s) ← readWhole s
  let (hasFraction, s) ← readFraction s
  let (hasExponent, s) ← readExponent s
  let n := ds.foldl (fun n c => n * 10 + (c.toNat - 48)) 0
  some (.number (if negative || hasFraction || hasExponent then none else some n), s)

/-! ### Strings -/

/-- A unit of a string: a character, or a number that an escape gives. -/
inductive Unit16 where
  | char (c : Char)
  | escape (n : Nat)

def hexValue? (c : Char) : Option Nat :=
  if c.isDigit then some (c.toNat - 48)
  else if 'a' ≤ c ∧ c ≤ 'f' then some (c.toNat - 87)
  else if 'A' ≤ c ∧ c ≤ 'F' then some (c.toNat - 55)
  else none

/-- The character of an escape of one letter. -/
def simpleEscape? : Char → Option Char
  | '"' => some '"'
  | '\\' => some '\\'
  | '/' => some '/'
  | 'b' => some (Char.ofNat 8)
  | 'f' => some (Char.ofNat 12)
  | 'n' => some '\n'
  | 'r' => some '\r'
  | 't' => some '\t'
  | _ => none

/-- The units up to the closing mark. -/
def readUnits : List Char → Option (List Unit16 × List Char)
  | '"' :: s => some ([], s)
  | '\\' :: 'u' :: a :: b :: c :: d :: s => do
    let n := (← hexValue? a) * 4096 + (← hexValue? b) * 256 + (← hexValue? c) * 16 + (← hexValue? d)
    let (us, r) ← readUnits s
    some (.escape n :: us, r)
  | '\\' :: c :: s => do
    let c ← simpleEscape? c
    let (us, r) ← readUnits s
    some (.char c :: us, r)
  | c :: s =>
    if c.toNat < 32 then none
    else (readUnits s).map fun (us, r) => (.char c :: us, r)
  | [] => none

/-- The text of units; a surrogate has to stand in a pair. -/
def text? : List Unit16 → Option (List Char)
  | [] => some []
  | .char c :: us => (text? us).map (c :: ·)
  | .escape n :: us =>
    if n < 0xd800 || 0xdfff < n then (text? us).map (Char.ofNat n :: ·)
    else match us with
      | .escape m :: vs =>
        if n < 0xdc00 && 0xdc00 ≤ m && m ≤ 0xdfff then
          (text? vs).map (Char.ofNat (0x10000 + (n - 0xd800) * 0x400 + (m - 0xdc00)) :: ·)
        else none
      | _ => none

/-- A string after its opening mark. -/
def readString (s : List Char) : Option (Option String × List Char) :=
  (readUnits s).map fun (us, r) => ((text? us).map String.ofList, r)

/-! ### Documents -/

/-- The items of an array from the first one on, up to the closing bracket.  The fuel bounds their
number, and `item` reads one. -/
def readItems (item : List Char → Option (Json × List Char)) :
    Nat → List Char → Option (List Json × List Char)
  | 0, _ => none
  | n + 1, s => do
    let (x, s) ← item (skipBlanks s)
    match skipBlanks s with
    | ',' :: s => (readItems item n s).map fun (xs, r) => (x :: xs, r)
    | ']' :: s => some ([x], s)
    | _ => none

/-- The fields of an object from the first one on, up to the closing brace. -/
def readFields (item : List Char → Option (Json × List Char)) :
    Nat → List Char → Option (List (Option String × Json) × List Char)
  | 0, _ => none
  | n + 1, s =>
    match skipBlanks s with
    | '"' :: s => do
      let (k, s) ← readString s
      let s ← expect [':'] (skipBlanks s)
      let (x, s) ← item (skipBlanks s)
      match skipBlanks s with
      | ',' :: s => (readFields item n s).map fun (xs, r) => ((k, x) :: xs, r)
      | c :: s => if c.toNat = 125 then some ([(k, x)], s) else none
      | [] => none
    | _ => none

/-- A value that starts with the first character.  The fuel bounds its depth and its width. -/
def readValue : Nat → List Char → Option (Json × List Char)
  | 0, _ => none
  | n + 1, s =>
    match s with
    | 'n' :: r => (expect ['u', 'l', 'l'] r).map fun r => (.null, r)
    | 't' :: r => (expect ['r', 'u', 'e'] r).map fun r => (.bool true, r)
    | 'f' :: r => (expect ['a', 'l', 's', 'e'] r).map fun r => (.bool false, r)
    | '"' :: r => (readString r).map fun (s, r) => (.string s, r)
    | '[' :: r =>
      match skipBlanks r with
      | ']' :: r => some (.array [], r)
      | r => (readItems (readValue n) n r).map fun (xs, r) => (.array xs, r)
    | c :: r =>
      if c.toNat = 123 then
        match skipBlanks r with
        | d :: q =>
          if d.toNat = 125 then some (.object [], q)
          else (readFields (readValue n) n (d :: q)).map fun (xs, r) => (.object xs, r)
        | [] => none
      else
        readNumber (c :: r)
    | [] => none

/-- The document that is all of a text. -/
def parse? (text : String) : Option Json := do
  let s := text.toList
  let (x, r) ← readValue (s.length + 1) (skipBlanks s)
  if (skipBlanks r).isEmpty then some x else none

end Json

end LuaCore
