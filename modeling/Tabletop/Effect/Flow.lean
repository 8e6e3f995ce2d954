import Tabletop.Effect.Session

/-!
# Effects on the course of play

Free operations that are granted, seats that are made eligible or not, and phases that interrupt the
current one.  Grants and eligibility exist in a card-driven order only.

Main definitions: `Site.grantFreeOperation`, `Site.setEligibilityOverride` and
`Site.pushInterruptPhase`.
-/

namespace Tabletop

/-- The grant that an offer makes to a seat. -/
def GrantOffer.grant (o : GrantOffer) (id : String) (seat : Seat) : Grant where
  id := id
  seat := seat
  operationClass := o.operationClass
  actions := o.actions
  zoneFilter := o.zoneFilter
  batch := o.sequence.map (·.batch)
  sequenceIndex := o.sequence.map (·.index)
  remaining := o.uses

namespace CardState

/-- The state with a grant made out of an offer behind the pending ones. -/
def grant (c : CardState) (o : GrantOffer) (seat : Seat) : CardState :=
  let (id, c) := c.takeGrantId
  { c with grants := c.grants ++ [o.grant id seat] }

/-- The state with what was said last about a seat's eligibility. -/
def setOverride (c : CardState) (seat : Seat) (eligible : Bool) : CardState :=
  { c with overrides := c.overrides.filter (fun o => o.seat ≠ seat) ++ [{ seat, eligible }] }

end CardState

namespace Site

/-- The card state, which an effect needs. -/
def cards (s : Site) (x : Session) (effect : String) : Attempt CardState :=
  match x.state.order.card? with
  | some card => .ok card
  | none => s.fail (.notCardDriven effect)

/-- Grants a free operation. -/
def grantFreeOperation (s : Site) (x : Session) (o : GrantOffer) : Attempt Session := do
  let seat ← o.seat.resolve (s.view x)
  if o.uses = 0 then s.fail .grantWithoutUse
  else
    let card ← s.cards x "grantFreeOperation"
    return x.withState { x.state with order := .cardDriven (card.grant o seat) }

/-- Says whether a seat shall be eligible on the next card. -/
def setEligibilityOverride (s : Site) (x : Session) (seat : SeatRef) (eligible : Bool) :
    Attempt Session := do
  let seat ← seat.resolve (s.view x)
  let card ← s.cards x "setEligibilityOverride"
  return x.withState { x.state with order := .cardDriven (card.setOverride seat eligible) }

/-- Suspends the current phase for an interrupt. -/
def pushInterruptPhase (s : Site) (x : Session) (phase : PhaseId) : Attempt Session :=
  if s.definition.turn.isInterrupt phase then
    .ok ((x.withState
      { x.state with suspended := x.state.suspended ++ [x.state.phase], phase }).raise
        (.phaseEnter phase))
  else s.fail (.notInterrupt phase)

end Site

end Tabletop
