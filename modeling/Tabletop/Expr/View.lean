import Tabletop.Expr.Bindings
import Tabletop.State.Basic
import Tabletop.Game

/-!
# What an expression can see

A view is a game at one moment, with names bound to values and a seat in whose name the evaluation
takes place.  References to seats, zones and tokens are resolved in a view.

Main definitions: `View`, `SeatRef.resolve`, `ZoneRef.resolve` and `View.token`.
-/

namespace Tabletop

/-- What an expression can see. -/
structure View where
  game : Game
  state : State
  bindings : Bindings
  /-- The seat in whose name the evaluation takes place. -/
  actor : Seat

namespace View

/-- The view with a name bound. -/
def bind (v : View) (name : String) (x : Value) : View :=
  { v with bindings := v.bindings.bind name x }

/-- The definition of the game. -/
def definition (v : View) : Definition := v.game.definition

/-- The value of a name. -/
def lookup (v : View) (name : String) : Result Value :=
  orFault (v.bindings.get? name) (.unbound name)

end View

/-- The seat whose index is a value; `place` says where the value was met. -/
def Value.toSeat (x : Value) (count : Nat) (place : String) : Result Seat := do
  let index ← orFault x.int? (.mismatch "int" x.typeName (.named place))
  orFault (Seat.ofIndex? index.toInt count) (.missing .seat (toString index.toInt))

/-- The seat that a reference means. -/
def SeatRef.resolve (r : SeatRef) (v : View) : Result Seat :=
  match r with
  | .active => .ok v.state.active
  | .actor => .ok v.actor
  | .id seat =>
    if seat.toNat < v.state.seatCount then .ok seat else .error (.missing .seat seat.text)
  | .binding name => do (← v.lookup name).toSeat v.state.seatCount name

/-- The id of the zone that a reference means. -/
def ZoneRef.id? (r : ZoneRef) (v : View) : Result ZoneId :=
  match r with
  | .id zone => .ok zone
  | .binding name => do
    let x ← v.lookup name
    orFault x.str? (.mismatch "zone id" x.typeName (.named name))
  | .owned base owner => do return ZoneId.owned base (some (← owner.resolve v))

/-- The zone that a reference means, which must be there. -/
def ZoneRef.resolve (r : ZoneRef) (v : View) : Result ZoneId := do
  let zone ← r.id? v
  if v.state.store.hasZone zone then return zone else throw (.missing .zone zone)

/-- The id of the token bound to a name: a token reference or a string. -/
def View.token (v : View) (name : String) : Result TokenId := do
  match ← v.lookup name with
  | .token id => return id
  | .scalar (.str id) => return id
  | other => throw (.mismatch "token" other.typeName (.named name))

end Tabletop
