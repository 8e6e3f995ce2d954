import Tabletop.State.Basic
import Tabletop.Move

/-!
# The course of the turn order

What a move does to the turn order, and what happens to it at the end of a card and of a turn.

A card ends when as many seats have acted as may, or no eligible seat is left that has neither acted
nor passed; but never while grants are pending.  Those who acted sit out the next card, unless it
was said otherwise, and then the next card is drawn.

Main definitions: `State.afterMove`, after a move; `State.endCard` and `State.settleCard`, at the
end of a card; `State.rotate`, at the end of a turn.
-/

namespace Tabletop

/-- What came to an end. -/
structure TurnOutcome where
  cardEnded : Bool := false
  turnEnded : Bool := false
  deriving DecidableEq, Repr, Inhabited

instance : Coded TurnOutcome where
  toJson o := .obj [("card_ended", toJson o.cardEnded), ("turn_ended", toJson o.turnEnded)]
  ofJson? j := do
    let fs ← j.fields?
    return { cardEnded := ← fs.required "card_ended", turnEnded := ← fs.required "turn_ended" }

namespace CardState

/-- Whether the card is over. -/
def isOver (c : CardState) (rules : CardRules) : Bool :=
  !c.inGrantWindow && (rules.maxActing.toNat ≤ c.acted.length || c.nextEligible?.isNone)

/-- The seats that sit out the next card: those who acted, as amended by what was said about
eligibility, in that order. -/
def excluded (c : CardState) : List Seat :=
  c.overrides.foldl (fun seats o =>
    if o.eligible then seats.filter (fun s => s ≠ o.seat)
    else if seats.contains o.seat then seats
    else seats ++ [o.seat]) c.acted

/-- The state on the next card.  A card on which nobody could act starts with everybody eligible. -/
def nextCard (c : CardState) : CardState :=
  let out := c.excluded
  { c with
    ineligible := if c.seatOrder.all out.contains then [] else out.mergeSort Seat.le
    acted := []
    passed := []
    overrides := []
    cardIndex := c.cardIndex + 1 }

/-- The state after a seat has passed. -/
def pass (c : CardState) (seat : Seat) : CardState := { c with passed := c.passed ++ [seat] }

/-- The state after a seat has acted. -/
def act (c : CardState) (seat : Seat) : CardState :=
  if c.acted.contains seat then c else { c with acted := c.acted ++ [seat] }

/-- The state after a move of a seat.  A free operation is not the seat's turn; to pass while grants
are pending is to give them up. -/
def afterMove (c : CardState) (rules : CardRules) (seat : Seat) (m : Move) : CardState :=
  if m.free then c
  else if rules.passAction = some m.action then
    if c.inGrantWindow then c.declineGrants seat else c.pass seat
  else c.act seat

/-- The state after a seat that cannot move has been passed over. -/
def skip (c : CardState) (seat : Seat) : CardState :=
  if c.inGrantWindow then c.declineGrants seat
  else if c.passed.contains seat then c
  else c.pass seat

end CardState

namespace State

/-- Puts the first token of one zone in front of another.  It is gone if there is no other. -/
def reveal (s : State) (source target : ZoneId) : State :=
  match s.store.takeFront source 1 with
  | ([], _) => s
  | (token :: _, store) =>
    { s with store := (store.insert? target token .front).getD store }

/-- Ends the card and reveals the next one. -/
def endCard (s : State) (d : Definition) : State :=
  match d.order, s.order with
  | .cardDriven rules, .cardDriven card =>
    let s := { s with order := .cardDriven card.nextCard }
    match rules.drawZone, rules.playedZone with
    | some source, some target => s.reveal source target
    | _, _ => s
  | _, _ => s

/-- Ends the card if it is over, then hands over to the seat that the order designates. -/
def settleCard (s : State) (d : Definition) (rules : CardRules) : TurnOutcome × State :=
  if s.order.card?.any (fun c => c.isOver rules) then
    ({ cardEnded := true, turnEnded := true }, (s.endCard d).syncActive d)
  else ({}, s.syncActive d)

/-- The turn order after a move of the active seat. -/
def afterMove (s : State) (d : Definition) (m : Move) : TurnOutcome × State :=
  match d.order, s.order with
  | .simultaneous, .simultaneous submitted =>
    let submitted := if submitted.contains s.active then submitted else submitted ++ [s.active]
    let s := { s with order := .simultaneous submitted }
    ({ turnEnded := s.seatCount ≤ submitted.length }, s.syncActive d)
  | .cardDriven rules, .cardDriven card =>
    settleCard { s with order := .cardDriven (card.afterMove rules s.active m) } d rules
  | _, _ => ({}, s.syncActive d)

/-- The turn order after the active seat has been passed over because it cannot move.  Only a
card-driven order passes seats over. -/
def skipStuckSeat (s : State) (d : Definition) : TurnOutcome × State :=
  match d.order.cards? with
  | none => ({}, s)
  | some rules =>
    settleCard { s with order := s.order.modifyCard (fun c => c.skip s.active) } d rules

/-- The turn order at the start of the next turn. -/
def rotate (s : State) (d : Definition) : State :=
  let s := match s.order with
    | .roundRobin => { s with active := s.active.next s.seatCount }
    | .fixed index => { s with order := .fixed (index + 1) }
    | .simultaneous _ => { s with order := .simultaneous [] }
    | .cardDriven _ => s
  s.syncActive d

end State

end Tabletop
