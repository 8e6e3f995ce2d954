import Tabletop.Expr.Eval
import Tabletop.Refusal

/-!
# Which grant covers a free operation

A free operation needs a grant of the active seat that admits its class and its action, is not
locked by an earlier grant of its batch, and whose condition on the params holds.  The grants are
narrowed down in that order, and the step that leaves none says why the operation is denied.

Main definitions: `CardState.candidates`, the grants that are left; `Game.coverage`, the one that
covers the operation or the reason why none does.
-/

namespace Tabletop

/-- Whether a grant admits an action of a class. -/
def Grant.admitsClass (g : Grant) (operationClass : Option String) : Bool :=
  g.operationClass.isNone || g.operationClass == operationClass

/-- Whether a grant admits an action. -/
def Grant.admitsAction (g : Grant) (action : ActionId) : Bool :=
  g.actions.isEmpty || g.actions.contains action

/-- Whether a grant comes before a place in a batch. -/
def Grant.precedes (g : Grant) (batch : String) (index : UInt32) : Bool :=
  g.batch == some batch && g.sequenceIndex.any (fun i => i < index)

namespace CardState

/-- Whether a pending grant comes before a grant in its batch. -/
def isLocked (c : CardState) (g : Grant) : Bool :=
  match g.batch, g.sequenceIndex with
  | some batch, some index => c.grants.any (fun other => other.precedes batch index)
  | _, _ => false

/-- The grants that pass a test, or a denial if none does. -/
def narrow (denial : GrantDenial) (keep : Grant → Bool) (grants : List Grant) :
    Except GrantDenial (List Grant) :=
  match grants.filter keep with
  | [] => .error denial
  | kept => .ok kept

/-- The pending grants that cover an action of a class but for the condition on its params. -/
def candidates (c : CardState) (seat : Seat) (action : ActionId) (operationClass : Option String) :
    Except GrantDenial (List Grant) := do
  let grants ← narrow .noActiveSeatGrant (fun g => g.seat = seat) c.grants
  let grants ← narrow .actionClassMismatch (fun g => g.admitsClass operationClass) grants
  let grants ← narrow .actionIdMismatch (fun g => g.admitsAction action) grants
  narrow .sequenceLocked (fun g => !c.isLocked g) grants

/-- Takes one use from the first grant of an id, and drops grants without any. -/
def consume (c : CardState) (id : String) : CardState :=
  { c with grants := (spend c.grants).filter (fun g => 0 < g.remaining) }
where
  /-- Takes one use from the first grant of the id. -/
  spend : List Grant → List Grant
    | [] => []
    | g :: gs =>
      if g.id = id then
        { g with remaining := if g.remaining = 0 then 0 else g.remaining - 1 } :: gs
      else g :: spend gs

end CardState

/-- The first grant whose condition on the params holds. -/
def Grant.firstHolding? (v : View) : List Grant → Result (Option Grant)
  | [] => .ok none
  | g :: gs =>
    match g.zoneFilter with
    | none => .ok (some g)
    | some filter => do
      if ← inPredicate (.grantFilter g.id) (filter.eval v) then return some g
      else firstHolding? v gs

namespace Game

/-- The id of the grant that covers a free operation with params bound, or why none does. -/
def coverage (g : Game) (s : State) (m : Move) (a : Action) (b : Bindings) :
    Result (Except GrantDenial String) :=
  match s.order.card? with
  | none => .ok (.error .noActiveSeatGrant)
  | some card =>
    match card.candidates s.active m.action (m.classOverride.or a.operationClass) with
    | .error denial => .ok (.error denial)
    | .ok grants => do
      match ← Grant.firstHolding? { game := g, state := s, bindings := b, actor := s.active }
        grants with
      | some grant => return .ok grant.id
      | none => return .error .zoneFilterMismatch

end Game

/-- The state after a use of a grant. -/
def State.consumeGrant (s : State) (id : String) : State :=
  { s with order := s.order.modifyCard (fun c => c.consume id) }

/-- The state in which the active seat has given up its grants. -/
def State.declineGrants (s : State) : State :=
  { s with order := s.order.modifyCard (fun c => c.declineGrants s.active) }

end Tabletop
