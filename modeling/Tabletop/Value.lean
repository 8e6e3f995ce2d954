import Tabletop.Ident

/-!
# Scalars, selections and values

A scalar is a boolean, an integer of 64 bits or a string.  A move selects scalars, one or several.
Evaluation works on values, which add references to tokens, so that a bound token's props can be
read from the state.

A token reference and the string of its id have the same `identity`: a token picked by a move (a
string) is the token that a query found.

Main definitions: `Scalar`, `Selection` and `Value`.
-/

namespace Tabletop

/-- A boolean, an integer or a string. -/
inductive Scalar where
  | bool (b : Bool)
  | int (n : Int64)
  | str (s : String)
  deriving DecidableEq, Repr, Inhabited

namespace Scalar

/-- The name of a scalar's type. -/
def typeName : Scalar → String
  | bool _ => "bool"
  | int _ => "int"
  | str _ => "string"

/-- The scalar as shown to a reader. -/
def text : Scalar → String
  | bool b => if b then "true" else "false"
  | int n => toString n.toInt
  | str s => s

/-- Booleans come before integers and integers before strings; within a type the usual order. -/
def le : Scalar → Scalar → Bool
  | bool a, bool b => !a || b
  | bool _, _ => true
  | int _, bool _ => false
  | int a, int b => a ≤ b
  | int _, str _ => true
  | str a, str b => a ≤ b
  | str _, _ => false

end Scalar

instance : Coded Scalar where
  toJson
    | .bool b => .bool b
    | .int n => toJson n
    | .str s => .str s
  ofJson?
    | .bool b => some (.bool b)
    | .str s => some (.str s)
    | j => (ofJson? j).map Scalar.int

/-- What a move supplies for one of its params: a scalar or several. -/
inductive Selection where
  | one (x : Scalar)
  | many (xs : List Scalar)
  deriving DecidableEq, Repr, Inhabited

/-- The selected scalars. -/
def Selection.scalars : Selection → List Scalar
  | one x => [x]
  | many xs => xs

/-- Several scalars in brackets, as shown to a reader. -/
def Scalar.listText (xs : List Scalar) : String :=
  "[" ++ ",".intercalate (xs.map Scalar.text) ++ "]"

/-- The selection as shown to a reader. -/
def Selection.text : Selection → String
  | one x => x.text
  | many xs => Scalar.listText xs

instance : Coded Selection where
  toJson
    | .one x => toJson x
    | .many xs => toJson xs
  ofJson?
    | .arr js => (ofJson? (.arr js)).map Selection.many
    | j => (ofJson? j).map Selection.one

/-- What evaluation yields and a binding holds. -/
inductive Value where
  | scalar (x : Scalar)
  | array (xs : List Scalar)
  | token (id : TokenId)
  deriving DecidableEq, Repr, Inhabited

namespace Value

/-- An integer value. -/
def int (n : Int64) : Value := .scalar (.int n)

/-- A boolean value. -/
def bool (b : Bool) : Value := .scalar (.bool b)

/-- A string value. -/
def str (s : String) : Value := .scalar (.str s)

/-- The number of a seat as a value. -/
def seat (s : Seat) : Value := int (Int64.ofNat s.toNat)

/-- The integer, if the value is one. -/
def int? : Value → Option Int64
  | .scalar (.int n) => some n
  | _ => none

/-- The boolean, if the value is one. -/
def bool? : Value → Option Bool
  | .scalar (.bool b) => some b
  | _ => none

/-- The string, or the id of a token reference. -/
def str? : Value → Option String
  | .scalar (.str s) => some s
  | .token id => some id
  | _ => none

/-- What two values must share to be the same member of a set; an array has none. -/
def identity? : Value → Option Scalar
  | .scalar x => some x
  | .token id => some (.str id)
  | .array _ => none

/-- Whether two values have the same identity; arrays are compared as they are. -/
def same (a b : Value) : Bool :=
  match a.identity?, b.identity? with
  | some x, some y => x == y
  | _, _ => a == b

/-- The name of a value's type. -/
def typeName : Value → String
  | .scalar x => x.typeName
  | .array _ => "array"
  | .token _ => "token"

/-- The value as shown to a reader. -/
def text : Value → String
  | .scalar x => x.text
  | .token id => id
  | .array xs => Scalar.listText xs

/-- The value of a selection. -/
def ofSelection : Selection → Value
  | .one x => .scalar x
  | .many xs => .array xs

end Value

instance : Coded Value where
  toJson
    | .scalar x => .variant "Scalar" (toJson x)
    | .array xs => .variant "Array" (toJson xs)
    | .token id => .variant "Token" (toJson id)
  ofJson? j :=
    match j.variant? with
    | some ("Scalar", some x) => (ofJson? x).map Value.scalar
    | some ("Array", some xs) => (ofJson? xs).map Value.array
    | some ("Token", some id) => (ofJson? id).map Value.token
    | _ => none

end Tabletop
