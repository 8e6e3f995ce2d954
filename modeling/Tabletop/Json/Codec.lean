import Tabletop.Dict
import Tabletop.Json.Basic

/-!
# The JSON form of a type

A type is `Coded` when its values have a JSON form that can be read back.  A record is an object;
a field with a default may be left out, and only an optional field may be `null`.  An alternative
is the string of its name, or an object whose one field is its name when it carries anything.

Main definition: the class `Coded`.
-/

namespace Tabletop

/-- Types with a JSON form. -/
class Coded (α : Type) where
  /-- The JSON form of a value. -/
  toJson : α → Json
  /-- The value of a JSON form. -/
  ofJson? : Json → Option α

export Coded (toJson ofJson?)

/-! ## Fields of records and names of alternatives -/

namespace Json

/-- A field that must be there, read by `read`. -/
def Fields.requiredBy {α : Type} (fs : Fields) (read : Json → Option α) (name : String) :
    Option α :=
  fs.lookup name >>= read

/-- A field that may be left out, read by `read`. -/
def Fields.withDefaultBy {α : Type} (fs : Fields) (read : Json → Option α) (name : String)
    (default : α) : Option α :=
  match fs.lookup name with
  | some j => read j
  | none => some default

/-- A field that must be there. -/
def Fields.required {α : Type} [Coded α] (fs : Fields) (name : String) : Option α :=
  fs.requiredBy ofJson? name

/-- A field that may be left out. -/
def Fields.withDefault {α : Type} [Coded α] (fs : Fields) (name : String) (default : α) :
    Option α :=
  fs.withDefaultBy ofJson? name default

/-- The form of an alternative that carries something. -/
def variant (name : String) (contents : Json) : Json := .obj [(name, contents)]

/-- The name of an alternative, and what it carries. -/
def variant? : Json → Option (String × Option Json)
  | .str name => some (name, none)
  | .obj [(name, contents)] => some (name, some contents)
  | _ => none

/-- The form of something that may be missing. -/
def ofOption {α : Type} (write : α → Json) : Option α → Json
  | none => .null
  | some x => write x

/-- Reads something that may be missing: `null` is missing. -/
def optionBy {α : Type} (read : Json → Option α) : Json → Option (Option α)
  | .null => some none
  | j => (read j).map some

/-- The form of a list. -/
def ofList {α : Type} (write : α → Json) (xs : List α) : Json := .arr (xs.map write)

/-- Reads a list. -/
def listBy {α : Type} (read : Json → Option α) : Json → Option (List α)
  | .arr js => js.mapM read
  | _ => none

/-- The form of a dictionary. -/
def ofDict {α : Type} (write : α → Json) (d : Dict α) : Json :=
  .obj (d.entries.map (fun e => (e.1, write e.2)))

/-- Reads a dictionary. -/
def dictBy {α : Type} (read : Json → Option α) : Json → Option (Dict α)
  | .obj fs => (fs.mapM (fun f => (read f.2).map (f.1, ·))).map Dict.ofList
  | _ => none

/-- An integer within bounds, both included. -/
def intBetween? (lo hi : Int) : Json → Option Int
  | .int n => if lo ≤ n ∧ n ≤ hi then some n else none
  | _ => none

/-- A natural number below a bound. -/
def natBelow? (bound : Nat) : Json → Option Nat
  | .int n => if 0 ≤ n ∧ n < bound then some n.toNat else none
  | _ => none

/-- A count of 64 bits. -/
def count? (j : Json) : Option Nat := natBelow? UInt64.size j

end Json

open Json

/-! ## Ground types -/

instance : Coded Json := ⟨id, some⟩

instance : Coded Bool where
  toJson b := .bool b
  ofJson?
    | .bool b => some b
    | _ => none

instance : Coded String where
  toJson s := .str s
  ofJson?
    | .str s => some s
    | _ => none

instance : Coded Int64 where
  toJson n := .int n.toInt
  ofJson? j := (intBetween? Int64.minValue.toInt Int64.maxValue.toInt j).map Int64.ofInt

instance : Coded Int32 where
  toJson n := .int n.toInt
  ofJson? j := (intBetween? Int32.minValue.toInt Int32.maxValue.toInt j).map Int32.ofInt

instance : Coded UInt64 where
  toJson n := .int n.toNat
  ofJson? j := (natBelow? UInt64.size j).map UInt64.ofNat

instance : Coded UInt32 where
  toJson n := .int n.toNat
  ofJson? j := (natBelow? UInt32.size j).map UInt32.ofNat

instance : Coded UInt8 where
  toJson n := .int n.toNat
  ofJson? j := (natBelow? UInt8.size j).map UInt8.ofNat

instance {w : Nat} : Coded (BitVec w) where
  toJson n := .int n.toNat
  ofJson? j := (natBelow? (1 <<< w) j).map (BitVec.ofNat w)

instance {α : Type} [Coded α] : Coded (Option α) where
  toJson := ofOption toJson
  ofJson? := optionBy ofJson?

instance {α : Type} [Coded α] : Coded (List α) where
  toJson := ofList toJson
  ofJson? := listBy ofJson?

instance {α : Type} [Coded α] : Coded (Dict α) where
  toJson := ofDict toJson
  ofJson? := dictBy ofJson?

end Tabletop
