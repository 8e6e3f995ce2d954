import Tabletop.Expr.Bindings
import Tabletop.Fault

/-!
# Which seats a selector means

A selector that means no seat is a fault of the definition, not of the move.

Main definitions: `SeatSelector.resolve` and `SeatSelector.resolveOne`.
-/

namespace Tabletop

namespace SeatSelector

/-- The seats of a game with the given indices. -/
def seatsAt (count : Nat) : List Int → Except SelectorFault (List Seat)
  | [] => .ok []
  | i :: is => do
    match Seat.ofIndex? i count with
    | none => throw (.outOfRange i count)
    | some seat => return seat :: (← seatsAt count is)

/-- The seat of a game whose index is a scalar. -/
def seatOf (count : Nat) : Scalar → Except SelectorFault Seat
  | .int n =>
    match Seat.ofIndex? n.toInt count with
    | some seat => .ok seat
    | none => .error (.outOfRange n.toInt count)
  | other => .error (.notSeat other.text)

/-- The seats of a game whose indices are scalars. -/
def seatsOf (count : Nat) : List Scalar → Except SelectorFault (List Seat)
  | [] => .ok []
  | x :: xs => do return (← seatOf count x) :: (← seatsOf count xs)

/-- The seats that a selector means, in the order in which it names them. -/
def named (sel : SeatSelector) (active : Seat) (count : Nat) (b : Bindings) :
    Except SelectorFault (List Seat) :=
  match sel with
  | .active => .ok [active]
  | .any => .ok (Seat.all count)
  | .allOther => .ok ((Seat.all count).filter (fun s => s ≠ active))
  | .id seat => seatsAt count [seat.toNat]
  | .ids [] => .error .noneListed
  | .ids seats => seatsAt count (seats.map (fun s => Int.ofNat s.toNat))
  | .binding name =>
    match b.get? name with
    | none => .error (.unbound name)
    | some (.scalar x) => seatsOf count [x]
    | some (.array xs) => seatsOf count xs
    | some (.token token) => .error (.notSeat token)

/-- The seats that a selector of an action means, in index order. -/
def resolve (sel : SeatSelector) (action : ActionId) (active : Seat) (count : Nat) (b : Bindings) :
    Result (List Seat) :=
  match sel.named active count b with
  | .ok seats => .ok (Seat.sortedOnce seats)
  | .error cause => .error (.selector action sel cause)

/-- The one seat that a selector of an action means. -/
def resolveOne (sel : SeatSelector) (action : ActionId) (active : Seat) (count : Nat)
    (b : Bindings) : Result Seat := do
  match ← sel.resolve action active count b with
  | [seat] => return seat
  | seats => throw (.selector action sel (.notSingle seats.length))

end SeatSelector

end Tabletop
