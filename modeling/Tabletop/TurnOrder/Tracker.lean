import Tabletop.Definition.Basic

/-!
# Keeping track of the turn order

What has to be remembered between moves to know whose turn it is.  A card-driven order remembers
who acted and who passed on the current card, and the grants of free operations that are pending;
while there are any, the holder of the first one is to move.

Main definitions: `CardState`, what is remembered of the current card; `Tracker`, what is remembered
of the turn order; `Tracker.designated?`, the seat that is to move.
-/

namespace Tabletop

open Json

/-- A free operation that a seat may carry out besides its turns. -/
structure Grant where
  id : String
  seat : Seat
  /-- The class that the action must have. -/
  operationClass : Option String := none
  /-- The accepted actions; none listed accepts any. -/
  actions : List ActionId := []
  /-- A condition on the params of the move. -/
  zoneFilter : Option Cond := none
  batch : Option String := none
  /-- The place in its batch. -/
  sequenceIndex : Option UInt32 := none
  remaining : UInt32
  deriving Inhabited

instance : Coded Grant where
  toJson g := .obj
    [("grant_id", toJson g.id), ("seat", toJson g.seat),
      ("operation_class", toJson g.operationClass), ("action_ids", toJson g.actions),
      ("zone_filter", toJson g.zoneFilter), ("sequence_batch_id", toJson g.batch),
      ("sequence_index", toJson g.sequenceIndex), ("remaining_uses", toJson g.remaining)]
  ofJson? j := do
    let fs ← j.fields?
    return {
      id := ← fs.required "grant_id"
      seat := ← fs.required "seat"
      operationClass := ← fs.withDefault "operation_class" none
      actions := ← fs.withDefault "action_ids" []
      zoneFilter := ← fs.withDefault "zone_filter" none
      batch := ← fs.withDefault "sequence_batch_id" none
      sequenceIndex := ← fs.withDefault "sequence_index" none
      remaining := ← fs.required "remaining_uses" }

/-- Whether a seat shall be eligible on the next card, whatever it does on this one. -/
structure Override where
  seat : Seat
  eligible : Bool
  deriving DecidableEq, Repr, Inhabited

instance : Coded Override where
  toJson o := .obj [("seat", toJson o.seat), ("eligible", toJson o.eligible)]
  ofJson? j := do
    let fs ← j.fields?
    return { seat := ← fs.required "seat", eligible := ← fs.required "eligible" }

/-- The state of a card-driven order. -/
structure CardState where
  seatOrder : List Seat
  /-- The seats that may not act on this card, ascending. -/
  ineligible : List Seat := []
  /-- The seats that acted on this card. -/
  acted : List Seat := []
  /-- The seats that passed on this card. -/
  passed : List Seat := []
  grants : List Grant := []
  overrides : List Override := []
  cardIndex : UInt32 := 0
  /-- The number of the next grant. -/
  nextGrant : UInt32 := 0
  deriving Inhabited

namespace CardState

/-- Whether a seat may act on this card. -/
def isEligible (c : CardState) (seat : Seat) : Bool := !c.ineligible.contains seat

/-- The first eligible seat that has neither acted nor passed. -/
def nextEligible? (c : CardState) : Option Seat :=
  c.seatOrder.find? (fun s => c.isEligible s && !c.acted.contains s && !c.passed.contains s)

/-- The seat to move: the holder of the first grant, or else the next eligible seat. -/
def seat? (c : CardState) : Option Seat := (c.grants.head?.map (·.seat)).or c.nextEligible?

/-- Whether grants are pending. -/
def inGrantWindow (c : CardState) : Bool := !c.grants.isEmpty

/-- The id of the next grant, and the state in which it is taken. -/
def takeGrantId (c : CardState) : String × CardState :=
  ("grant-" ++ toString c.nextGrant.toNat, { c with nextGrant := c.nextGrant + 1 })

/-- The state without the grants of a seat. -/
def declineGrants (c : CardState) (seat : Seat) : CardState :=
  { c with grants := c.grants.filter (fun g => g.seat ≠ seat) }

end CardState

instance : Coded CardState where
  toJson c := .obj
    [("seat_order", toJson c.seatOrder), ("ineligible", toJson c.ineligible),
      ("acted", toJson c.acted), ("passed", toJson c.passed), ("pending_grants", toJson c.grants),
      ("pending_overrides", toJson c.overrides), ("card_index", toJson c.cardIndex),
      ("next_grant_ordinal", toJson c.nextGrant)]
  ofJson? j := do
    let fs ← j.fields?
    return {
      seatOrder := ← fs.required "seat_order"
      ineligible := ← fs.required "ineligible"
      acted := ← fs.required "acted"
      passed := ← fs.required "passed"
      grants := ← fs.required "pending_grants"
      overrides := ← fs.required "pending_overrides"
      cardIndex := ← fs.required "card_index"
      nextGrant := ← fs.required "next_grant_ordinal" }

/-- Where the turn order stands. -/
inductive Tracker where
  /-- The active seat says it all. -/
  | roundRobin
  /-- The number of turns gone. -/
  | fixed (index : UInt64)
  | cardDriven (card : CardState)
  /-- The seats that have moved this turn. -/
  | simultaneous (submitted : List Seat)
  deriving Inhabited

namespace Tracker

/-- The card state, if the order is card driven. -/
def card? : Tracker → Option CardState
  | cardDriven card => some card
  | _ => none

/-- Changes the card state, if there is one. -/
def modifyCard (t : Tracker) (f : CardState → CardState) : Tracker :=
  match t with
  | cardDriven card => cardDriven (f card)
  | other => other

/-- Whether grants are pending. -/
def inGrantWindow (t : Tracker) : Bool := t.card?.any CardState.inGrantWindow

/-- Where an order stands at the start of a game. -/
def initial (order : TurnOrder) (count : Nat) : Tracker :=
  match order with
  | .roundRobin => .roundRobin
  | .fixed _ => .fixed 0
  | .cardDriven rules =>
    .cardDriven { seatOrder := if rules.seats.isEmpty then Seat.all count else rules.seats }
  | .simultaneous => .simultaneous []

/-- The seat that the order designates, if it does so at all: round robin leaves the active seat
where it is. -/
def designated? (t : Tracker) (order : TurnOrder) (count : Nat) : Option Seat :=
  match t, order with
  | .fixed index, .fixed seats =>
    if seats.isEmpty then none else seats[index.toNat % seats.length]?
  | .cardDriven card, _ => card.seat?.or card.seatOrder.head?
  | .simultaneous submitted, _ => (Seat.all count).find? (fun s => !submitted.contains s)
  | _, _ => none

end Tracker

instance : Coded Tracker where
  toJson
    | .roundRobin => .str "roundRobin"
    | .fixed index => .variant "fixed" (.obj [("index", toJson index)])
    | .cardDriven card => .variant "cardDriven" (toJson card)
    | .simultaneous submitted =>
      .variant "simultaneous" (.obj [("submitted", toJson submitted)])
  ofJson? j :=
    match j.variant? with
    | some ("roundRobin", none) => some .roundRobin
    | some ("fixed", some x) => do
      let fs ← x.fields?
      return .fixed (← fs.required "index")
    | some ("cardDriven", some x) => (ofJson? x).map Tracker.cardDriven
    | some ("simultaneous", some x) => do
      let fs ← x.fields?
      return .simultaneous (← fs.required "submitted")
    | _ => none

end Tabletop
