import Tabletop.Json.Codec

/-!
# Variables

A game has variables of its own, of each seat and of each zone.  All are stored as integers of 64
bits that never leave their bounds; a boolean is zero or one.

Main definitions: `Variable` and `Variable.clamp`.
-/

namespace Tabletop

/-- What a variable holds. -/
inductive VariableKind where
  | int
  | bool
  deriving DecidableEq, Repr, Inhabited

instance : Coded VariableKind where
  toJson
    | .int => .str "int"
    | .bool => .str "bool"
  ofJson?
    | .str "int" => some .int
    | .str "bool" => some .bool
    | _ => none

/-- The declaration of a variable. -/
structure Variable where
  name : String
  kind : VariableKind := .int
  init : Int64 := 0
  min : Int64 := Int64.minValue
  max : Int64 := Int64.maxValue
  deriving DecidableEq, Repr, Inhabited

namespace Variable

/-- An integer variable. -/
def ofInt (name : String) (init min max : Int64) : Variable := { name, init, min, max }

/-- A boolean variable. -/
def ofBool (name : String) (init : Bool) : Variable :=
  { name, kind := .bool, init := if init then 1 else 0, min := 0, max := 1 }

/-- The least value. -/
def lower (v : Variable) : Int64 :=
  match v.kind with
  | .int => v.min
  | .bool => 0

/-- The greatest value: never below the least, however the bounds were declared. -/
def upper (v : Variable) : Int64 :=
  match v.kind with
  | .int => if v.min ≤ v.max then v.max else v.min
  | .bool => 1

/-- The value within the bounds that is nearest to an integer. -/
def clamp (v : Variable) (n : Int) : Int64 :=
  if n < v.lower.toInt then v.lower
  else if v.upper.toInt < n then v.upper
  else Int64.ofInt n

/-- The value that the variable starts with. -/
def initial (v : Variable) : Int64 := v.clamp v.init.toInt

end Variable

instance : Coded Variable where
  toJson v := .obj
    [("name", toJson v.name), ("type", toJson v.kind), ("init", toJson v.init),
      ("min", toJson v.min), ("max", toJson v.max)]
  ofJson? j := do
    let fs ← j.fields?
    return {
      name := ← fs.required "name"
      kind := ← fs.withDefault "type" .int
      init := ← fs.withDefault "init" 0
      min := ← fs.withDefault "min" Int64.minValue
      max := ← fs.withDefault "max" Int64.maxValue }

end Tabletop
