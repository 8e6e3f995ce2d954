import Tabletop.Effect.Form

/-!
# Turns and endings

How play goes round the table: the phases of a turn, the order of the seats, and how the game ends.
In a card-driven order the seats that may act are decided anew on every card.

Main definitions: `TurnStructure`, `TurnOrder`, `CardRules` and `Victory`.
-/

namespace Tabletop

open Json

/-- A phase of a turn. -/
structure Phase where
  id : PhaseId
  deriving DecidableEq, Repr, Inhabited

instance : Coded Phase where
  toJson p := .obj [("id", toJson p.id)]
  ofJson? j := do
    let fs ← j.fields?
    return { id := ← fs.required "id" }

/-- The phases of a turn, in order, and the phases that can interrupt them. -/
structure TurnStructure where
  phases : List Phase
  interrupts : List Phase := []
  deriving DecidableEq, Repr, Inhabited

namespace TurnStructure

/-- A turn of the given phases, without interrupts. -/
def ofPhases (ids : List PhaseId) : TurnStructure := { phases := ids.map Phase.mk }

/-- The position of a regular phase. -/
def index? (t : TurnStructure) (phase : PhaseId) : Option Nat :=
  t.phases.findIdx? (·.id == phase)

/-- Whether a phase is an interrupt. -/
def isInterrupt (t : TurnStructure) (phase : PhaseId) : Bool :=
  t.interrupts.any (·.id == phase)

/-- Whether a phase is declared. -/
def has (t : TurnStructure) (phase : PhaseId) : Bool :=
  (t.index? phase).isSome || t.isInterrupt phase

/-- The regular phase that follows a phase. -/
def after? (t : TurnStructure) (phase : PhaseId) : Option PhaseId :=
  t.index? phase >>= fun i => t.phases[i + 1]?.map (·.id)

end TurnStructure

instance : Coded TurnStructure where
  toJson t := .obj [("phases", toJson t.phases), ("interrupts", toJson t.interrupts)]
  ofJson? j := do
    let fs ← j.fields?
    return { phases := ← fs.required "phases", interrupts := ← fs.withDefault "interrupts" [] }

/-- When a victory checkpoint counts. -/
inductive CheckpointTiming where
  /-- At any time; the named seat wins as soon as it holds. -/
  | during
  /-- It ends the game; the margins decide who wins. -/
  | final
  deriving DecidableEq, Repr, Inhabited

instance : Coded CheckpointTiming where
  toJson
    | .during => .str "during"
    | .final => .str "final"
  ofJson?
    | .str "during" => some .during
    | .str "final" => some .final
    | _ => none

/-- A condition on which a card-driven game ends. -/
structure Checkpoint where
  id : String
  seat : Option Seat := none
  timing : CheckpointTiming
  when : Cond
  deriving Inhabited

instance : Coded Checkpoint where
  toJson c := .obj
    [("id", toJson c.id), ("seat", toJson c.seat), ("timing", toJson c.timing),
      ("when", toJson c.when)]
  ofJson? j := do
    let fs ← j.fields?
    return {
      id := ← fs.required "id"
      seat := ← fs.withDefault "seat" none
      timing := ← fs.required "timing"
      when := ← fs.required "when" }

/-- How far ahead a seat is, for ranking. -/
structure Margin where
  seat : Seat
  value : Expr
  deriving Inhabited

instance : Coded Margin where
  toJson m := .obj [("seat", toJson m.seat), ("value", toJson m.value)]
  ofJson? j := do
    let fs ← j.fields?
    return { seat := ← fs.required "seat", value := ← fs.required "value" }

/-- How a card-driven game is won. -/
structure Victory where
  checkpoints : List Checkpoint := []
  margins : List Margin := []
  deriving Inhabited

instance : Coded Victory where
  toJson v := .obj [("checkpoints", toJson v.checkpoints), ("margins", toJson v.margins)]
  ofJson? j := do
    let fs ← j.fields?
    return {
      checkpoints := ← fs.withDefault "checkpoints" []
      margins := ← fs.withDefault "margins" [] }

/-- How the cards of a card-driven order are played. -/
structure CardRules where
  /-- The seats in the order in which they are eligible; none listed means all, by index. -/
  seats : List Seat
  maxActing : UInt32 := 2
  /-- The action that passes; passing declines the grants that a seat holds. -/
  passAction : Option ActionId := none
  /-- Where the next card comes from at the end of a card. -/
  drawZone : Option ZoneId := none
  /-- Where it goes. -/
  playedZone : Option ZoneId := none
  victory : Option Victory := none
  deriving Inhabited

/-- Card rules for the given seats. -/
def CardRules.ofSeats (seats : List Seat) : CardRules := { seats }

instance : Coded CardRules where
  toJson c := .obj
    [("seats", toJson c.seats), ("max_acting_per_card", toJson c.maxActing),
      ("pass_action", toJson c.passAction), ("draw_zone", toJson c.drawZone),
      ("played_zone", toJson c.playedZone), ("victory", toJson c.victory)]
  ofJson? j := do
    let fs ← j.fields?
    return {
      seats := ← fs.required "seats"
      maxActing := ← fs.withDefault "max_acting_per_card" 2
      passAction := ← fs.withDefault "pass_action" none
      drawZone := ← fs.withDefault "draw_zone" none
      playedZone := ← fs.withDefault "played_zone" none
      victory := ← fs.withDefault "victory" none }

/-- How the active seat is chosen. -/
inductive TurnOrder where
  /-- By index. -/
  | roundRobin
  /-- In a given order. -/
  | fixed (order : List Seat)
  /-- By eligibility, card by card. -/
  | cardDriven (rules : CardRules)
  /-- Every seat moves once a turn, the lowest that has not first. -/
  | simultaneous
  deriving Inhabited

/-- The card rules, if the order is card driven. -/
def TurnOrder.cards? : TurnOrder → Option CardRules
  | .cardDriven rules => some rules
  | _ => none

instance : Coded TurnOrder where
  toJson
    | .roundRobin => .str "roundRobin"
    | .fixed order => .variant "fixed" (.obj [("order", toJson order)])
    | .cardDriven rules => .variant "cardDriven" (toJson rules)
    | .simultaneous => .str "simultaneous"
  ofJson? j :=
    match j.variant? with
    | some ("roundRobin", none) => some .roundRobin
    | some ("simultaneous", none) => some .simultaneous
    | some ("cardDriven", some x) => (ofJson? x).map TurnOrder.cardDriven
    | some ("fixed", some x) => do
      let fs ← x.fields?
      return .fixed (← fs.required "order")
    | _ => none

/-- What an end condition declares. -/
inductive Ending where
  | draw
  | lossAll
  | win (seat : SeatRef)
  /-- Seats are ranked by a value computed for each, the highest first unless `ascending`. -/
  | score (value : Expr) (ascending : Bool)
  deriving Inhabited

instance : Coded Ending where
  toJson
    | .draw => .str "draw"
    | .lossAll => .str "lossAll"
    | .win seat => .variant "win" (.obj [("player", toJson seat)])
    | .score value ascending =>
      .variant "score" (.obj [("value", toJson value), ("ascending", toJson ascending)])
  ofJson? j :=
    match j.variant? with
    | some ("draw", none) => some .draw
    | some ("lossAll", none) => some .lossAll
    | some ("win", some x) => do
      let fs ← x.fields?
      return .win (← fs.required "player")
    | some ("score", some x) => do
      let fs ← x.fields?
      return .score (← fs.required "value") (← fs.withDefault "ascending" false)
    | _ => none

/-- A condition that ends the game. -/
structure EndCondition where
  when : Cond
  result : Ending
  deriving Inhabited

instance : Coded EndCondition where
  toJson e := .obj [("when", toJson e.when), ("result", toJson e.result)]
  ofJson? j := do
    let fs ← j.fields?
    return { when := ← fs.required "when", result := ← fs.required "result" }

end Tabletop
