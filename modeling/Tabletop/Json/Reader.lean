import Tabletop.Json.Basic
import Tabletop.Text.Decimal
import Tabletop.Text.Hex

/-!
# Reading JSON text

A total reader.  The input is consumed from the front; every function returns what it read and
what is left.  Arrays and objects may nest at most `maxNesting` deep, so the reader recurses on
that depth, and on the characters left for the items of one array.

Main definition: `Json.parse?`.
-/

namespace Tabletop.Json

/-- The deepest nesting of arrays and objects that is read. -/
def maxNesting : Nat := 127

/-- Drops white space: blank, tab, line feed, carriage return. -/
def skipBlank (cs : List Char) : List Char :=
  cs.dropWhile (fun c => c = ' ' ∨ c = '\t' ∨ c = '\n' ∨ c = '\r')

/-- Drops a literal from the front. -/
def expect : List Char → List Char → Option (List Char)
  | [], cs => some cs
  | w :: ws, c :: cs => if w = c then expect ws cs else none
  | _ :: _, [] => none

/-! ## Strings -/

/-- The number that four hexadecimal digits write. -/
def hex4? (a b c d : Char) : Option Nat := do
  return ((← Hex.value? a) * 16 + (← Hex.value? b)) * 256 +
    ((← Hex.value? c) * 16 + (← Hex.value? d))

/-- The character that a letter after a backslash stands for. -/
def shortEscape? : Char → Option Char
  | '"' => some '"'
  | '\\' => some '\\'
  | '/' => some '/'
  | 'b' => some '\x08'
  | 'f' => some '\x0c'
  | 'n' => some '\n'
  | 'r' => some '\r'
  | 't' => some '\t'
  | _ => none

/-- Reads the rest of a string after its opening quote.  A character outside the basic plane may be
escaped as two halves; a half alone, and a control character as such, are refused. -/
def readString : List Char → List Char → Option (String × List Char)
  | '"' :: cs, acc => some (String.ofList acc.reverse, cs)
  | '\\' :: 'u' :: a :: b :: c :: d :: '\\' :: 'u' :: e :: f :: g :: h :: cs, acc =>
    match hex4? a b c d, hex4? e f g h with
    | some hi, some lo =>
      if 0xD800 ≤ hi ∧ hi < 0xDC00 then
        if 0xDC00 ≤ lo ∧ lo < 0xE000 then
          readString cs (Char.ofNat (0x10000 + (hi - 0xD800) * 0x400 + (lo - 0xDC00)) :: acc)
        else none
      else if 0xDC00 ≤ hi ∧ hi < 0xE000 then none
      else readString ('\\' :: 'u' :: e :: f :: g :: h :: cs) (Char.ofNat hi :: acc)
    | _, _ => none
  | '\\' :: 'u' :: a :: b :: c :: d :: cs, acc =>
    match hex4? a b c d with
    | some n => if 0xD800 ≤ n ∧ n < 0xE000 then none else readString cs (Char.ofNat n :: acc)
    | none => none
  | '\\' :: c :: cs, acc =>
    match shortEscape? c with
    | some e => readString cs (e :: acc)
    | none => none
  | c :: cs, acc => if c.toNat < 0x20 then none else readString cs (c :: acc)
  | [], _ => none

/-! ## Numbers -/

/-- The digits at the front, and the rest. -/
def digits (cs : List Char) : List Char × List Char :=
  cs.span (fun c => '0' ≤ c ∧ c ≤ '9')

/-- A fraction at the front (empty if there is none), and the rest. -/
def readFraction : List Char → Option (List Char × List Char)
  | '.' :: cs =>
    match digits cs with
    | ([], _) => none
    | (ds, rest) => some ('.' :: ds, rest)
  | cs => some ([], cs)

/-- A sign at the front (empty if there is none), and the rest. -/
def readSign : List Char → List Char × List Char
  | '+' :: cs => (['+'], cs)
  | '-' :: cs => (['-'], cs)
  | cs => ([], cs)

/-- An exponent at the front (empty if there is none), and the rest. -/
def readExponent : List Char → Option (List Char × List Char)
  | [] => some ([], [])
  | c :: cs =>
    if c = 'e' ∨ c = 'E' then
      let (sign, cs) := readSign cs
      match digits cs with
      | ([], _) => none
      | (ds, rest) => some (c :: sign ++ ds, rest)
    else some ([], c :: cs)

/-- The value of a number with the given sign, digits and tail (fraction and exponent).  Without a
tail it is an integer if it fits 64 bits with or without a sign; a negative zero is no integer. -/
def numberOf (negative : Bool) (ds tail : List Char) : Json :=
  let n := Decimal.ofDigits ds
  let literal := .decimal (String.ofList ((if negative then ['-'] else []) ++ ds ++ tail))
  if ¬ tail.isEmpty then literal
  else if negative then
    if n = 0 ∨ -(n : Int) < Int64.minValue.toInt then literal else .int (-(n : Int))
  else if UInt64.size ≤ n then literal else .int n

/-- Reads a number: no leading zero, digits on both sides of a point. -/
def readNumber (cs : List Char) : Option (Json × List Char) := do
  let (negative, cs) := match cs with
    | '-' :: cs => (true, cs)
    | cs => (false, cs)
  let (ds, cs) := digits cs
  if ds.isEmpty ∨ (ds.head? = some '0' ∧ 1 < ds.length) then none
  let (fraction, cs) ← readFraction cs
  let (exponent, cs) ← readExponent cs
  return (numberOf negative ds (fraction ++ exponent), cs)

/-! ## Values -/

/-- Of fields with one name only the last is kept. -/
def lastOfEach (fs : Fields) : Fields :=
  fs.foldr (fun f later => if later.any (·.1 == f.1) then later else f :: later) []

mutual

/-- Reads one value.  `depth` is how deep it may nest. -/
def readValue (depth : Nat) : Nat → List Char → Option (Json × List Char)
  | 0, _ => none
  | fuel + 1, cs =>
    match skipBlank cs with
    | 'n' :: cs => (expect ['u', 'l', 'l'] cs).map (Json.null, ·)
    | 't' :: cs => (expect ['r', 'u', 'e'] cs).map (Json.bool true, ·)
    | 'f' :: cs => (expect ['a', 'l', 's', 'e'] cs).map (Json.bool false, ·)
    | '"' :: cs => (readString cs []).map (fun r => (Json.str r.1, r.2))
    | '[' :: cs =>
      match depth with
      | 0 => none
      | depth + 1 =>
        match skipBlank cs with
        | ']' :: cs => some (.arr [], cs)
        | cs => (readItems depth fuel cs).map (fun r => (Json.arr r.1, r.2))
    | '{' :: cs =>
      match depth with
      | 0 => none
      | depth + 1 =>
        match skipBlank cs with
        | '}' :: cs => some (.obj [], cs)
        | cs => (readFields depth fuel cs).map (fun r => (Json.obj (lastOfEach r.1), r.2))
    | cs => readNumber cs

/-- Reads the items of an array, at least one, and its closing bracket. -/
def readItems (depth : Nat) : Nat → List Char → Option (List Json × List Char)
  | 0, _ => none
  | fuel + 1, cs =>
    match readValue depth fuel cs with
    | none => none
    | some (x, cs) =>
      match skipBlank cs with
      | ']' :: cs => some ([x], cs)
      | ',' :: cs => (readItems depth fuel cs).map (fun r => (x :: r.1, r.2))
      | _ => none

/-- Reads the fields of an object, at least one, and its closing brace. -/
def readFields (depth : Nat) : Nat → List Char → Option (Fields × List Char)
  | 0, _ => none
  | fuel + 1, cs =>
    match skipBlank cs with
    | '"' :: cs =>
      match readString cs [] with
      | none => none
      | some (name, cs) =>
        match skipBlank cs with
        | ':' :: cs =>
          match readValue depth fuel cs with
          | none => none
          | some (x, cs) =>
            match skipBlank cs with
            | '}' :: cs => some ([(name, x)], cs)
            | ',' :: cs => (readFields depth fuel cs).map (fun r => ((name, x) :: r.1, r.2))
            | _ => none
        | _ => none
    | _ => none

end

/-- Reads a text that holds one value and nothing else.  Each level of nesting and each item takes
at least one character, so twice the length is more than the recursion needs. -/
def parse? (text : String) : Option Json :=
  let cs := text.toList
  match readValue maxNesting (2 * cs.length + 2) cs with
  | some (j, rest) => if (skipBlank rest).isEmpty then some j else none
  | none => none

end Tabletop.Json
