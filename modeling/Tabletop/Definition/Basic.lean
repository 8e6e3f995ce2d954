import Tabletop.Definition.Variable
import Tabletop.Definition.Layout
import Tabletop.Definition.Action
import Tabletop.Definition.Turn
import Tabletop.Definition.Trigger

/-!
# Game definitions

A definition is everything that is fixed about a game: what lies on the table, how play goes round,
what seats can do, what happens by itself and how it ends.  Nothing checks that the ids in it refer
to something; one that does not is found out when it is used.

Main definition: `Definition`.
-/

namespace Tabletop

open Json

/-- Who a game is for, and how deep its triggers may cascade. -/
structure Metadata where
  id : String
  minSeats : UInt8
  maxSeats : UInt8
  maxTriggerDepth : UInt32 := 8
  deriving DecidableEq, Repr, Inhabited

instance : Coded Metadata where
  toJson m := .obj
    [("id", toJson m.id), ("min_players", toJson m.minSeats), ("max_players", toJson m.maxSeats),
      ("max_trigger_depth", toJson m.maxTriggerDepth)]
  ofJson? j := do
    let fs ← j.fields?
    return {
      id := ← fs.required "id"
      minSeats := ← fs.required "min_players"
      maxSeats := ← fs.required "max_players"
      maxTriggerDepth := ← fs.withDefault "max_trigger_depth" 8 }

/-- A game. -/
structure Definition where
  metadata : Metadata
  constants : Dict Int64 := ∅
  globalVars : List Variable := []
  seatVars : List Variable := []
  zoneVars : List Variable := []
  zones : List Zone := []
  tokenTypes : List TokenType := []
  markers : List Lattice := []
  tables : List DataTable := []
  map : Option GameMap := none
  stackingLimits : List StackingLimit := []
  setup : List Effect := []
  turn : TurnStructure
  order : TurnOrder := .roundRobin
  endConditions : List EndCondition := []
  actions : List Action := []
  pipelines : List Pipeline := []
  triggers : List Trigger := []
  deriving Inhabited

namespace Definition

/-- A game for one to four seats with a single phase and nothing to do. -/
def minimal (id : String) : Definition where
  metadata := { id, minSeats := 1, maxSeats := 4 }
  turn := .ofPhases ["main"]

/-! ## Look-ups

Of several declarations with one id the first counts. -/

/-- The action of an id. -/
def action? (d : Definition) (id : ActionId) : Option Action := d.actions.find? (·.id == id)

/-- The pipelines of an action, in the order of their declaration. -/
def pipelinesOf (d : Definition) (id : ActionId) : List Pipeline :=
  d.pipelines.filter (·.action == id)

/-- The global variable of a name. -/
def globalVar? (d : Definition) (name : String) : Option Variable :=
  d.globalVars.find? (·.name == name)

/-- The seats' variable of a name. -/
def seatVar? (d : Definition) (name : String) : Option Variable :=
  d.seatVars.find? (·.name == name)

/-- The zones' variable of a name. -/
def zoneVar? (d : Definition) (name : String) : Option Variable :=
  d.zoneVars.find? (·.name == name)

/-- The zone of an id. -/
def zone? (d : Definition) (id : ZoneId) : Option Zone := d.zones.find? (·.id == id)

/-- The token type of an id. -/
def tokenType? (d : Definition) (id : String) : Option TokenType :=
  d.tokenTypes.find? (·.id == id)

/-- The marker of an id. -/
def marker? (d : Definition) (id : String) : Option Lattice := d.markers.find? (·.id == id)

/-- The table of an id. -/
def table? (d : Definition) (id : String) : Option DataTable := d.tables.find? (·.id == id)

/-- The first regular phase. -/
def firstPhase? (d : Definition) : Option PhaseId := d.turn.phases.head?.map (·.id)

/-- The lasting effect of an id, among those of all actions. -/
def lastingEffect? (d : Definition) (id : String) : Option LastingEffect :=
  (d.actions.flatMap (·.lasting)).find? (·.id == id)

/-- The order in which a zone's top is found; a zone that is not declared is a stack. -/
def orderOf (d : Definition) (zone : ZoneId) : ZoneOrder :=
  match d.zone? zone with
  | some z => z.order
  | none => .stack

/-- Whether an action is the one that passes in a card-driven order. -/
def isPass (d : Definition) (action : ActionId) : Bool :=
  match d.order.cards? with
  | some rules => rules.passAction == some action
  | none => false

end Definition

instance : Coded Definition where
  toJson d := .obj
    [("metadata", toJson d.metadata), ("constants", toJson d.constants),
      ("global_vars", toJson d.globalVars), ("per_player_vars", toJson d.seatVars),
      ("zone_vars", toJson d.zoneVars), ("zones", toJson d.zones),
      ("token_types", toJson d.tokenTypes), ("markers", toJson d.markers),
      ("tables", toJson d.tables), ("map", toJson d.map),
      ("stacking_constraints", toJson d.stackingLimits), ("setup", toJson d.setup),
      ("turn_structure", toJson d.turn), ("turn_order", toJson d.order),
      ("end_conditions", toJson d.endConditions), ("actions", toJson d.actions),
      ("action_pipelines", toJson d.pipelines), ("triggers", toJson d.triggers)]
  ofJson? j := do
    let fs ← j.fields?
    return {
      metadata := ← fs.required "metadata"
      constants := ← fs.withDefault "constants" ∅
      globalVars := ← fs.withDefault "global_vars" []
      seatVars := ← fs.withDefault "per_player_vars" []
      zoneVars := ← fs.withDefault "zone_vars" []
      zones := ← fs.withDefault "zones" []
      tokenTypes := ← fs.withDefault "token_types" []
      markers := ← fs.withDefault "markers" []
      tables := ← fs.withDefault "tables" []
      map := ← fs.withDefault "map" none
      stackingLimits := ← fs.withDefault "stacking_constraints" []
      setup := ← fs.withDefault "setup" []
      turn := ← fs.required "turn_structure"
      order := ← fs.withDefault "turn_order" .roundRobin
      endConditions := ← fs.withDefault "end_conditions" []
      actions := ← fs.withDefault "actions" []
      pipelines := ← fs.withDefault "action_pipelines" []
      triggers := ← fs.withDefault "triggers" [] }

end Tabletop
