import Tabletop.Json.Basic
import Tabletop.Text.Hex

/-!
# Writing JSON text

Compact, with the fields of an object in ascending order of their names.  A string escapes the
quote, the backslash and the control characters and leaves every other character as it is.

Main definition: `Json.render`.
-/

namespace Tabletop.Json

/-- How a character is written inside a string. -/
def escapeChar (c : Char) : String :=
  if c = '"' then "\\\""
  else if c = '\\' then "\\\\"
  else if c = '\n' then "\\n"
  else if c = '\r' then "\\r"
  else if c = '\t' then "\\t"
  else if c = '\x08' then "\\b"
  else if c = '\x0c' then "\\f"
  else if c.toNat < 0x20 then
    "\\u00" ++ String.ofList (Hex.ofByte c.toNat.toUInt8)
  else c.toString

/-- A string in quotes. -/
def quote (s : String) : String :=
  s.foldl (fun out c => out ++ escapeChar c) "\"" ++ "\""

mutual

/-- The text of a value, appended to a text. -/
def writeTo (out : String) : Json → String
  | .null => out ++ "null"
  | .bool true => out ++ "true"
  | .bool false => out ++ "false"
  | .int n => out ++ toString n
  | .decimal literal => out ++ literal
  | .str s => out ++ quote s
  | .arr xs => writeItems (out ++ "[") true xs ++ "]"
  | .obj fs =>
    let texts := fieldTexts fs
    let ordered := texts.mergeSort (fun a b => a.1 ≤ b.1)
    out ++ "\x7b" ++ ",".intercalate (ordered.map (fun f => quote f.1 ++ ":" ++ f.2)) ++ "\x7d"

/-- The texts of items, appended to a text with commas between them. -/
def writeItems (out : String) (first : Bool) : List Json → String
  | [] => out
  | x :: xs => writeItems (writeTo (if first then out else out ++ ",") x) false xs

/-- The text of each field. -/
def fieldTexts : List (String × Json) → List (String × String)
  | [] => []
  | (name, x) :: fs => (name, writeTo "" x) :: fieldTexts fs

end

/-- The text of a value. -/
def render (j : Json) : String := writeTo "" j

end Tabletop.Json
