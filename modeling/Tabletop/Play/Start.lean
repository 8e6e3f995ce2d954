import Tabletop.Limits
import Tabletop.State.Fingerprint

/-!
# Starting a game

A blank state has every variable at its initial value and every declared zone empty.  The setup
effects of the definition make it the starting state; no trigger reacts to them.

Main definitions: `Definition.blank` and `Game.start`.
-/

namespace Tabletop

/-- The initial values of variables. -/
def Variable.initials (vars : List Variable) : Vars :=
  .ofList (vars.map (fun v => (v.name, v.initial)))

namespace Definition

/-- Whether a game can be played by so many seats. -/
def admits (d : Definition) (count : Nat) : Bool :=
  count ≠ 0 && count ≤ 255 && d.metadata.minSeats.toNat ≤ count && count ≤ d.metadata.maxSeats.toNat

/-- The initial values of the variables of every declared zone, if zones have variables. -/
def initialZoneVars (d : Definition) : Dict Vars :=
  if d.zoneVars.isEmpty then ∅
  else .ofList (d.zones.map (fun z => (z.id, Variable.initials d.zoneVars)))

/-- The default states of the markers on every space of the map, if there are markers. -/
def initialMarkers (d : Definition) : Dict (Dict String) :=
  if d.markers.isEmpty then ∅
  else
    let defaults := Dict.ofList (d.markers.map (fun l => (l.id, l.default)))
    .ofList ((d.map.toList.flatMap (·.spaces)).map (fun s => (s.id, defaults)))

/-- The blank state for so many seats. -/
def blank (d : Definition) (count : Nat) (seed : UInt64) : Result State := do
  if !d.admits count then
    throw (.seatCount count d.metadata.minSeats d.metadata.maxSeats)
  let order := Tracker.initial d.order count
  let phase ← orFault d.firstPhase? (.missing .phase "<first phase>")
  return {
    globalVars := Variable.initials d.globalVars
    seatVars := .replicate count (Variable.initials d.seatVars)
    zoneVars := d.initialZoneVars
    store := d.zones.foldl (fun store z => store.addZone z.id) .empty
    nextToken := 0
    phase
    suspended := []
    active := (order.designated? d.order count).getD ⟨0⟩
    turn := 1
    order
    usage := ∅
    markers := d.initialMarkers
    lasting := []
    random := .ofSeed seed
    fingerprint := 0 }

end Definition

namespace Game

/-- Runs the setup effects of a game for the active seat. -/
def setUp (g : Game) (s : State) : Result State :=
  if g.definition.setup.isEmpty then .ok s
  else do
    let setting := ({ game := g } : Rules).strict s.active .setup none
    let x ← runEffects setting "setup" ∅ g.definition.setup s
    return x.state.syncActive g.definition

/-- The starting state for so many seats. -/
def start (g : Game) (count : Nat) (seed : UInt64) : Result State := do
  let s ← g.definition.blank count seed
  return (← g.setUp s).stamp

end Game

end Tabletop
