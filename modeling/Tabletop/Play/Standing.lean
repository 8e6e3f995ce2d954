import Tabletop.Play.Resolve

/-!
# Where a partial move stands

A client builds a move decision by decision.  At any time the move is complete, or the next decision
is asked for, or it is illegal for the reason for which it would not be made.

Main definition: `Rules.standing`.
-/

namespace Tabletop

open Json

/-- Where a partial move stands. -/
inductive Standing where
  /-- It can be made as it is. -/
  | complete
  | pending (request : Request)
  | illegal (rejection : Rejection)
  deriving DecidableEq, Repr, Inhabited

namespace Standing

/-- Whether the move can be made as it is. -/
def isComplete : Standing → Bool
  | complete => true
  | _ => false

/-- The rejection of an illegal move. -/
def rejection? : Standing → Option Rejection
  | illegal rejection => some rejection
  | _ => none

end Standing

/-- Where a move stands in a state. -/
def Rules.standing (r : Rules) (s : State) (m : Move) : Result Standing :=
  match r.resolve s m with
  | .ok _ => .ok .complete
  | .error (.pending request) => .ok (.pending request)
  | .error (.refused rejection) => .ok (.illegal rejection)
  | .error (.fault fault) => .error fault

end Tabletop
