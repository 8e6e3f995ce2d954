/-!
# JSON values

The data format in which definitions, states, moves and answers travel.  A number is an integer,
or else it is kept as it was written: nothing in a game is a fraction, so a `decimal` is never
the form of a value and no reader of this library accepts one.

Main definition: `Json`.
-/

namespace Tabletop

/-- A JSON value. -/
inductive Json where
  | null
  | bool (b : Bool)
  | int (n : Int)
  /-- A number that is not written as an integer, or not one of 64 bits; kept as written. -/
  | decimal (literal : String)
  | str (s : String)
  | arr (items : List Json)
  /-- Fields in any order; readers look at the first field of a name. -/
  | obj (fields : List (String × Json))
  deriving Inhabited, Repr

namespace Json

/-- The fields of an object. -/
abbrev Fields := List (String × Json)

/-- The fields, if the value is an object. -/
def fields? : Json → Option Fields
  | .obj fs => some fs
  | _ => none

/-- The items, if the value is an array. -/
def items? : Json → Option (List Json)
  | .arr xs => some xs
  | _ => none

/-- A field of an object. -/
def field? (j : Json) (name : String) : Option Json :=
  j.fields? >>= fun fs => fs.lookup name

/-- The object with one field dropped. -/
def dropField (j : Json) (name : String) : Json :=
  match j with
  | .obj fs => .obj (fs.filter (fun f => f.1 ≠ name))
  | other => other

/-- The object with one field set. -/
def setField (j : Json) (name : String) (x : Json) : Json :=
  match j.dropField name with
  | .obj fs => .obj (fs ++ [(name, x)])
  | other => other

mutual

/-- How deeply arrays and objects nest in a value. -/
def depth : Json → Nat
  | .arr xs => depthItems xs + 1
  | .obj fs => depthFields fs + 1
  | _ => 1

/-- The depth of the deepest item. -/
def depthItems : List Json → Nat
  | [] => 0
  | x :: xs => max (depth x) (depthItems xs)

/-- The depth of the deepest field. -/
def depthFields : List (String × Json) → Nat
  | [] => 0
  | (_, x) :: fs => max (depth x) (depthFields fs)

end

end Json

end Tabletop
