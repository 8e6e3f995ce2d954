import Tabletop.Board.Store
import Tabletop.TurnOrder.Tracker
import Tabletop.Random.Draw
import Tabletop.Fault

/-!
# Game states

A state is one moment of a game: the variables, the tokens, whose turn of which phase it is, what
has been used up, and where the random numbers stand.  It is plain data; a change makes a new one.

Main definition: `State`.
-/

namespace Tabletop

open Json

/-- How often an action has been taken. -/
structure Usage where
  turn : UInt32 := 0
  phase : UInt32 := 0
  game : UInt32 := 0
  deriving DecidableEq, Repr, Inhabited

namespace Usage

/-- The count over a scope. -/
def within (u : Usage) : UsageScope → UInt32
  | .turn => u.turn
  | .phase => u.phase
  | .game => u.game

/-- The counts with one scope starting anew. -/
def reset (u : Usage) : UsageScope → Usage
  | .turn => { u with turn := 0 }
  | .phase => { u with phase := 0 }
  | .game => { u with game := 0 }

/-- The counts after one more use. -/
def record (u : Usage) : Usage := { turn := u.turn + 1, phase := u.phase + 1, game := u.game + 1 }

end Usage

instance : Coded Usage where
  toJson u := .obj [("turn", toJson u.turn), ("phase", toJson u.phase), ("game", toJson u.game)]
  ofJson? j := do
    let fs ← j.fields?
    return {
      turn := ← fs.required "turn"
      phase := ← fs.required "phase"
      game := ← fs.required "game" }

/-- A lasting effect whose time is not over. -/
structure ActiveLasting where
  id : String
  action : ActionId
  duration : Duration
  /-- The seat for which its setup ran; its teardown will run for the same. -/
  executor : Seat
  deriving DecidableEq, Repr, Inhabited

instance : Coded ActiveLasting where
  toJson l := .obj
    [("id", toJson l.id), ("action_id", toJson l.action), ("duration", toJson l.duration),
      ("executor", toJson l.executor)]
  ofJson? j := do
    let fs ← j.fields?
    return {
      id := ← fs.required "id"
      action := ← fs.required "action_id"
      duration := ← fs.required "duration"
      executor := ← fs.required "executor" }

/-- The values of variables, by name. -/
abbrev Vars := Dict Int64

/-- One moment of a game. -/
structure State where
  globalVars : Vars
  seatVars : PerSeat Vars
  zoneVars : Dict Vars
  store : Store
  /-- The number of the next token. -/
  nextToken : UInt64
  phase : PhaseId
  /-- The suspended phases, the last one on top. -/
  suspended : List PhaseId
  active : Seat
  turn : UInt32
  order : Tracker
  usage : Dict Usage
  /-- The states of markers, by space and marker. -/
  markers : Dict (Dict String)
  lasting : List ActiveLasting
  random : RandomState
  fingerprint : UInt64
  deriving Inhabited

namespace State

/-- The number of seats. -/
def seatCount (s : State) : Nat := s.seatVars.size

/-- The value of a global variable. -/
def globalVar? (s : State) (name : String) : Option Int64 := s.globalVars.get? name

/-- The value of a seat's variable. -/
def seatVar? (s : State) (seat : Seat) (name : String) : Option Int64 :=
  s.seatVars.get? seat >>= fun vars => vars.get? name

/-- The value of a zone's variable. -/
def zoneVar? (s : State) (zone : ZoneId) (name : String) : Option Int64 :=
  s.zoneVars.get? zone >>= fun vars => vars.get? name

/-- The state of a marker on a space: the stored one, or else the default. -/
def marker (s : State) (d : Definition) (space : ZoneId) (name : String) : Result String :=
  match s.markers.get? space >>= fun m => m.get? name with
  | some state => .ok state
  | none => (orFault (d.marker? name) (.missing .marker name)).map (·.default)

/-- How often an action has been taken. -/
def usageOf (s : State) (action : ActionId) : Usage := (s.usage.get? action).getD {}

/-- The first limit of an action that is used up. -/
def exhaustedLimit? (s : State) (a : Action) : Option UsageLimit :=
  a.limits.find? (fun l => l.max ≤ (s.usageOf a.id).within l.scope)

/-- The state with the counts over one scope starting anew. -/
def resetUsage (s : State) (scope : UsageScope) : State :=
  { s with usage := s.usage.map (fun _ u => u.reset scope) }

/-- The state after one more use of an action. -/
def recordUsage (s : State) (action : ActionId) : State :=
  { s with usage := s.usage.insert action (s.usageOf action).record }

/-- The state with a variable set. -/
def setVar (s : State) (scope : VarScope) (name : String) (x : Int64) : State :=
  match scope with
  | .global => { s with globalVars := s.globalVars.insert name x }
  | .seat seat => { s with seatVars := s.seatVars.modify seat (fun vars => vars.insert name x) }
  | .zone zone =>
    { s with zoneVars := s.zoneVars.insert zone (((s.zoneVars.get? zone).getD ∅).insert name x) }

/-- The state with a marker set. -/
def setMarker (s : State) (space : ZoneId) (name state : String) : State :=
  { s with
    markers := s.markers.insert space (((s.markers.get? space).getD ∅).insert name state) }

/-- The state in which the active seat is the one that the turn order designates. -/
def syncActive (s : State) (d : Definition) : State :=
  match s.order.designated? d.order s.seatCount with
  | some seat => { s with active := seat }
  | none => s

end State

instance : Coded State where
  toJson s := .obj
    [("global_vars", toJson s.globalVars), ("player_vars", toJson s.seatVars),
      ("zone_vars", toJson s.zoneVars), ("zones", toJson s.store),
      ("next_token_ordinal", toJson s.nextToken), ("current_phase", toJson s.phase),
      ("interrupt_stack", toJson s.suspended), ("active_player", toJson s.active),
      ("turn_count", toJson s.turn), ("turn_order", toJson s.order),
      ("action_usage", toJson s.usage), ("markers", toJson s.markers),
      ("lasting_effects", toJson s.lasting), ("rng", toJson s.random),
      ("state_hash", toJson s.fingerprint)]
  ofJson? j := do
    let fs ← j.fields?
    return {
      globalVars := ← fs.required "global_vars"
      seatVars := ← fs.required "player_vars"
      zoneVars := ← fs.required "zone_vars"
      store := ← fs.required "zones"
      nextToken := ← fs.required "next_token_ordinal"
      phase := ← fs.required "current_phase"
      suspended := ← fs.required "interrupt_stack"
      active := ← fs.required "active_player"
      turn := ← fs.required "turn_count"
      order := ← fs.required "turn_order"
      usage := ← fs.required "action_usage"
      markers := ← fs.required "markers"
      lasting := ← fs.required "lasting_effects"
      random := ← fs.required "rng"
      fingerprint := ← fs.required "state_hash" }

end Tabletop
