import Tabletop.Expr.Eval

/-!
# How a game ends

The first end condition that holds decides.  A card-driven game may also end on a checkpoint of its
victory: those that count at any time come before the final ones.  Rankings put the best first and
keep seats with equal scores in the order in which they were given.

Main definition: `Game.outcome?`.
-/

namespace Tabletop

open Json

/-- A seat's score. -/
structure Score where
  seat : Seat
  score : Int64
  deriving DecidableEq, Repr, Inhabited

instance : Coded Score where
  toJson s := .obj [("player", toJson s.seat), ("score", toJson s.score)]
  ofJson? j := do
    let fs ← j.fields?
    return { seat := ← fs.required "player", score := ← fs.required "score" }

namespace Score

/-- The scores with the highest first. -/
def highestFirst (scores : List Score) : List Score :=
  scores.mergeSort (fun a b => b.score ≤ a.score)

/-- The scores with the lowest first. -/
def lowestFirst (scores : List Score) : List Score :=
  scores.mergeSort (fun a b => a.score ≤ b.score)

end Score

/-- The checkpoint that ended a game. -/
structure Conquest where
  checkpoint : String
  timing : CheckpointTiming
  /-- The margins, the highest first. -/
  ranking : List Score
  deriving DecidableEq, Repr, Inhabited

instance : Coded Conquest where
  toJson c := .obj
    [("checkpoint", toJson c.checkpoint), ("timing", toJson c.timing),
      ("ranking", toJson c.ranking)]
  ofJson? j := do
    let fs ← j.fields?
    return {
      checkpoint := ← fs.required "checkpoint"
      timing := ← fs.required "timing"
      ranking := ← fs.required "ranking" }

/-- How a game ended. -/
inductive Outcome where
  | draw
  /-- Every seat loses. -/
  | lossAll
  | win (seat : Seat) (conquest : Option Conquest)
  /-- The best seat comes first. -/
  | score (ranking : List Score)
  deriving DecidableEq, Repr, Inhabited

instance : Coded Outcome where
  toJson
    | .draw => .str "draw"
    | .lossAll => .str "lossAll"
    | .win seat conquest =>
      .variant "win" (.obj [("player", toJson seat), ("victory", toJson conquest)])
    | .score ranking => .variant "score" (.obj [("ranking", toJson ranking)])
  ofJson? j :=
    match j.variant? with
    | some ("draw", none) => some .draw
    | some ("lossAll", none) => some .lossAll
    | some ("win", some x) => do
      let fs ← x.fields?
      return .win (← fs.required "player") (← fs.withDefault "victory" none)
    | some ("score", some x) => do
      let fs ← x.fields?
      return .score (← fs.required "ranking")
    | _ => none

/-- Whether a seat won: it was declared the winner, or it is first in the ranking. -/
def Outcome.isWinner (o : Outcome) (seat : Seat) : Bool :=
  match o with
  | .win winner _ => winner == seat
  | .score ranking => ranking.head?.any (fun s => s.seat == seat)
  | .draw => false
  | .lossAll => false

/-- The seats that won. -/
def Outcome.winners (o : Outcome) (count : Nat) : List Seat := (Seat.all count).filter o.isWinner

namespace View

/-- The view of a state without names, for its active seat. -/
def ofState (g : Game) (s : State) : View :=
  { game := g, state := s, bindings := ∅, actor := s.active }

/-- The view with only a seat's number bound. -/
def ofSeat (v : View) (seat : Seat) : View :=
  { v with bindings := .ofList [("$player", .seat seat)] }

end View

namespace Ending

/-- The scores of seats, each computed for the seat. -/
def scores (value : Expr) (v : View) : List Seat → Result (List Score)
  | [] => .ok []
  | seat :: seats => do
    let score ← value.evalInt { v.ofSeat seat with actor := seat }
    return { seat, score } :: (← scores value v seats)

/-- The outcome that an end condition declares. -/
def outcome (e : Ending) (v : View) : Result Outcome :=
  match e with
  | .draw => .ok .draw
  | .lossAll => .ok .lossAll
  | .win seat => do return .win (← seat.resolve v) none
  | .score value ascending => do
    let scores ← scores value v (Seat.all v.state.seatCount)
    return .score (if ascending then Score.lowestFirst scores else Score.highestFirst scores)

end Ending

namespace EndCondition

/-- The outcome that the first condition that holds declares; the first one is number `i`. -/
def firstOutcome? (v : View) (i : Nat) : List EndCondition → Result (Option Outcome)
  | [] => .ok none
  | e :: es => do
    if ← inPredicate (.endCondition i) (e.when.eval v) then return some (← e.result.outcome v)
    else firstOutcome? v (i + 1) es

end EndCondition

namespace Victory

/-- The scores of margins. -/
def marginScores (v : View) : List Margin → Result (List Score)
  | [] => .ok []
  | m :: ms => do
    let score ← inPredicate (.margin m.seat) (m.value.evalInt (v.ofSeat m.seat))
    return { seat := m.seat, score } :: (← marginScores v ms)

/-- The seat that wins on a checkpoint, given the ranking by margin. -/
def winner (c : Checkpoint) (ranking : List Score) (active : Seat) : Seat :=
  let first := ranking.head?.map (·.seat)
  match c.timing with
  | .during => (c.seat.or first).getD active
  | .final => (first.or c.seat).getD active

/-- The checkpoints in the order in which they count. -/
def ordered (y : Victory) : List Checkpoint :=
  y.checkpoints.filter (·.timing = .during) ++ y.checkpoints.filter (·.timing = .final)

/-- The outcome of the first checkpoint that holds. -/
def firstOutcome? (y : Victory) (v : View) : List Checkpoint → Result (Option Outcome)
  | [] => .ok none
  | c :: cs => do
    if ← inPredicate (.checkpoint c.id) (c.when.eval v) then
      let ranking := Score.highestFirst (← marginScores v y.margins)
      return some (.win (winner c ranking v.state.active)
        (some { checkpoint := c.id, timing := c.timing, ranking }))
    else y.firstOutcome? v cs

end Victory

/-- The outcome of a game, if it is over. -/
def Game.outcome? (g : Game) (s : State) : Result (Option Outcome) := do
  let v := View.ofState g s
  match ← EndCondition.firstOutcome? v 0 g.definition.endConditions with
  | some outcome => return some outcome
  | none =>
    match g.definition.order.cards? >>= CardRules.victory with
    | some victory => victory.firstOutcome? v victory.ordered
    | none => return none

end Tabletop
