import LuaCore.Text.Hidden
import LuaCore.Text.Utf8

/-!
Quoted text, as byte strings are described to a reader: the characters between quotation marks, with a
backslash before the marks and before what cannot be shown.
-/

namespace LuaCore

namespace Quoted

/-- The hexadecimal digits of a number. -/
def hexText (n : Nat) : String := String.ofList (Nat.toDigits 16 n)

/-- One character of quoted text. -/
def charText (c : Char) : String :=
  if c.toNat = 0 then "\\0"
  else if c = '\t' then "\\t"
  else if c = '\n' then "\\n"
  else if c = '\r' then "\\r"
  else if c = '\\' then "\\\\"
  else if c = '"' then "\\\""
  else if Hidden.contains c then "\\u\x7b" ++ hexText c.toNat ++ "\x7d"
  else String.singleton c

/-- A text between quotation marks. -/
def text (s : String) : String := "\"" ++ String.join (s.toList.map charText) ++ "\""

end Quoted

/-- A byte string for a reader: quoted if it is a text, and otherwise by its length alone. -/
def Bytes.describe (b : Bytes) : String :=
  match Utf8.text? b with
  | some s => Quoted.text s
  | none => "<binary string len=" ++ toString b.length ++ ">"

end LuaCore
