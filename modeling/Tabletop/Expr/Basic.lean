import Tabletop.Value

/-!
# Expressions, conditions and queries

The three languages in which a definition says what it wants to know: an expression yields a value,
a condition holds or not, a query yields an ordered set.  They are plain trees and refer to each
other.

Main definitions: `Expr`, `Cond` and `Query`.
-/

namespace Tabletop

/-- Refers to a seat. -/
inductive SeatRef where
  /-- The seat whose turn it is. -/
  | active
  /-- The seat that carries out the current action or trigger. -/
  | actor
  | id (seat : Seat)
  /-- The seat whose index is bound to a name. -/
  | binding (name : String)
  deriving DecidableEq, Repr, Inhabited

/-- Refers to a zone. -/
inductive ZoneRef where
  | id (zone : ZoneId)
  /-- The zone whose id is bound to a name. -/
  | binding (name : String)
  /-- The zone with a base name that belongs to a seat. -/
  | owned (base : String) (owner : SeatRef)
  deriving DecidableEq, Repr, Inhabited

/-- Combines two integers. -/
inductive ArithOp where
  | add | sub | mul | div | min | max
  deriving DecidableEq, Repr, Inhabited

/-- Folds the integers of a query. -/
inductive AggregateOp where
  | count | sum | min | max
  deriving DecidableEq, Repr, Inhabited

/-- Compares two values. -/
inductive CompareOp where
  | eq | ne | lt | le | gt | ge
  deriving DecidableEq, Repr, Inhabited

mutual

/-- A piece of the state, of the definition or of the bindings. -/
inductive Ref where
  | binding (name : String)
  | globalVar (name : String)
  | seatVar (seat : SeatRef) (name : String)
  | zoneVar (zone : ZoneRef) (name : String)
  /-- A prop of the token bound to a name. -/
  | tokenProp (token prop : String)
  | constant (name : String)
  | activeSeat
  | actor
  | turnCount
  | currentPhase
  | tokenCount (zone : ZoneRef)
  | marker (space : ZoneRef) (name : String)
  /-- A field of the row of a table that has a key. -/
  | tableEntry (table : String) (key : Expr) (field : String)

/-- Yields a value. -/
inductive Expr where
  | int (n : Int64)
  | bool (b : Bool)
  | str (s : String)
  | ref (r : Ref)
  | arith (op : ArithOp) (left right : Expr)
  /-- Folds a query; the value of each item is computed with the item bound to a name, and is the
  item itself when no expression is given. -/
  | aggregate (op : AggregateOp) (query : Query) (bind : String) (value : Option Expr)
  | ifThenElse (when : Cond) (yes no : Expr)

/-- Holds or does not hold. -/
inductive Cond where
  | const (b : Bool)
  | and (parts : List Cond)
  | or (parts : List Cond)
  | not (part : Cond)
  | compare (op : CompareOp) (left right : Expr)
  /-- Membership, by identity. -/
  | mem (item : Expr) (set : Query)
  | adjacent (source target : ZoneRef)
  | tokenInZone (token : String) (zone : ZoneRef)
  /-- A boolean, or an integer other than zero. -/
  | truthy (value : Expr)

/-- Which items of a query are kept. -/
inductive Filter where
  | all
  /-- Those for which a condition holds when they are bound to a name. -/
  | satisfying (bind : String) (condition : Cond)

/-- Yields an ordered set. -/
inductive Query where
  /-- The tokens of a zone, front first. -/
  | tokensInZone (zone : ZoneRef) (filter : Filter)
  /-- The declared zones in the order of their declaration, perhaps of one category. -/
  | zones (category : Option String) (filter : Filter)
  /-- The zones next to a zone, by id. -/
  | adjacentZones (zone : ZoneRef) (filter : Filter)
  /-- The integers between two, both included. -/
  | intRange (min max : Expr)
  | enums (names : List String)
  /-- The indices of all seats. -/
  | seats
  /-- The scalars of a bound array, or the one bound value. -/
  | binding (name : String)
  /-- One column of a table, in row order. -/
  | tableColumn (table field : String)
  | concat (parts : List Query)

end

instance : Inhabited Expr := ⟨.int 0⟩
instance : Inhabited Cond := ⟨.const true⟩
instance : Inhabited Filter := ⟨.all⟩
instance : Inhabited Query := ⟨.seats⟩

/-! ## Shorthands -/

namespace Expr

/-- The value bound to a name. -/
def binding (name : String) : Expr := .ref (.binding name)

/-- The value of a global variable. -/
def globalVar (name : String) : Expr := .ref (.globalVar name)

/-- The value of a seat's variable. -/
def seatVar (seat : SeatRef) (name : String) : Expr := .ref (.seatVar seat name)

/-- The number of tokens in a zone. -/
def tokenCount (zone : ZoneRef) : Expr := .ref (.tokenCount zone)

/-- The number of items of a query. -/
def count (query : Query) : Expr := .aggregate .count query "$item" none

end Expr

namespace Cond

/-- Two values have the same identity. -/
def eq (left right : Expr) : Cond := .compare .eq left right

/-- An integer is at least another. -/
def ge (left right : Expr) : Cond := .compare .ge left right

end Cond

namespace Query

/-- All tokens of a zone. -/
def tokens (zone : ZoneRef) : Query := .tokensInZone zone .all

/-- The integers between two given ones. -/
def range (min max : Int64) : Query := .intRange (.int min) (.int max)

end Query

end Tabletop
