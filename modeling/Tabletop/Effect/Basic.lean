import Tabletop.Expr.Form

/-!
# Effects

The part of a definition that changes the state.  Costs, stages, trigger bodies, setup and lasting
effects are all lists of effects.  An effect names what it does; how it is carried out is in
`Effect.Run`.

Main definition: `Effect`.
-/

namespace Tabletop

/-- Whose variable an effect writes. -/
inductive VarTarget where
  | global
  | seat (seat : SeatRef)
  | zone (zone : ZoneRef)
  deriving DecidableEq, Repr, Inhabited

/-- Where a token is put into its destination. -/
inductive InsertAt where
  | top
  | bottom
  /-- Any place with the same chance. -/
  | random
  deriving DecidableEq, Repr, Inhabited

/-- One group of a removal by priority: the tokens of `source` go to `target`. -/
structure PriorityGroup where
  source : Query
  target : ZoneRef

/-- The place of a granted free operation in a batch. -/
structure GrantSequence where
  batch : String
  index : UInt32
  deriving DecidableEq, Repr

/-- What a grant of a free operation offers, as a definition says it. -/
structure GrantOffer where
  seat : SeatRef
  /-- The class that an action must have. -/
  operationClass : Option String := none
  /-- The accepted actions; none listed accepts any. -/
  actions : List ActionId := []
  zoneFilter : Option Cond := none
  uses : UInt32 := 1
  sequence : Option GrantSequence := none

/-- How many options a choice takes: exactly `exactly`, or between `atLeast` (if absent, zero) and
`atMost` (if absent, as many as there are). -/
structure Cardinality where
  exactly : Option Expr := none
  atLeast : Option Expr := none
  atMost : Option Expr := none

/-- Changes the state. -/
inductive Effect where
  /-- Writes a variable, clamped to its bounds. -/
  | setVar (target : VarTarget) (name : String) (value : Expr)
  /-- Adds to a variable, clamped to its bounds. -/
  | addVar (target : VarTarget) (name : String) (delta : Expr)
  /-- Moves the bound token, which must be in `source`. -/
  | moveToken (token : String) (source target : ZoneRef) (place : InsertAt)
  /-- Moves every token that the filter keeps, in order. -/
  | moveAll (source target : ZoneRef) (filter : Filter)
  /-- Moves the bound token to a zone next to its own. -/
  | moveTokenAdjacent (token : String) (source target : ZoneRef) (place : InsertAt)
  /-- Moves up to `count` tokens from the front of one zone to another. -/
  | draw (source target : ZoneRef) (count : Expr)
  | shuffle (zone : ZoneRef)
  /-- Puts a new token at the front; the given props replace its type's. -/
  | createToken (type : String) (zone : ZoneRef) (props : Dict Expr)
  | destroyToken (token : String)
  | setTokenProp (token prop : String) (value : Expr)
  | setMarker (space : ZoneRef) (marker : String) (state : Expr)
  | ifThenElse (when : Cond) (yes no : List Effect)
  /-- Runs a body for every item, up to a limit. -/
  | forEach (bind : String) (source : Query) (body : List Effect) (limit : Option Expr)
  | letIn (bind : String) (value : Expr) (body : List Effect)
  /-- Folds a query and runs a body with the result bound. -/
  | reduce (source : Query) (item acc : String) (initial next : Expr) (result : String)
      (body : List Effect)
  /-- Draws an integer and runs a body with it bound. -/
  | rollRandom (bind : String) (min max : Expr) (body : List Effect)
  /-- Moves up to `budget` tokens out of the groups, the first group first, and runs a body with
  their number bound. -/
  | removeByPriority (budget : Expr) (groups : List PriorityGroup) (countBind : Option String)
      (body : List Effect)
  /-- Asks for one option. -/
  | chooseOne (bind : String) (options : Query)
  /-- Asks for several options. -/
  | chooseN (bind : String) (options : Query) (cardinality : Cardinality)
  | grantFreeOperation (offer : GrantOffer)
  | setEligibilityOverride (seat : SeatRef) (eligible : Bool)
  /-- Suspends the current phase and enters an interrupt phase. -/
  | pushInterruptPhase (phase : PhaseId)

instance : Inhabited Effect := ⟨.pushInterruptPhase ""⟩

namespace Effect

/-- The name of an effect's kind. -/
def kind : Effect → String
  | setVar .. => "setVar"
  | addVar .. => "addVar"
  | moveToken .. => "moveToken"
  | moveAll .. => "moveAll"
  | moveTokenAdjacent .. => "moveTokenAdjacent"
  | draw .. => "draw"
  | shuffle .. => "shuffle"
  | createToken .. => "createToken"
  | destroyToken .. => "destroyToken"
  | setTokenProp .. => "setTokenProp"
  | setMarker .. => "setMarker"
  | ifThenElse .. => "if"
  | forEach .. => "forEach"
  | letIn .. => "let"
  | reduce .. => "reduce"
  | rollRandom .. => "rollRandom"
  | removeByPriority .. => "removeByPriority"
  | chooseOne .. => "chooseOne"
  | chooseN .. => "chooseN"
  | grantFreeOperation .. => "grantFreeOperation"
  | setEligibilityOverride .. => "setEligibilityOverride"
  | pushInterruptPhase .. => "pushInterruptPhase"

/-! ## Shorthands -/

/-- Adds a number to a global variable. -/
def addGlobal (name : String) (delta : Int64) : Effect := .addVar .global name (.int delta)

/-- Writes a global variable. -/
def setGlobal (name : String) (value : Expr) : Effect := .setVar .global name value

/-- Adds to a seat's variable. -/
def addSeat (seat : SeatRef) (name : String) (delta : Expr) : Effect :=
  .addVar (.seat seat) name delta

/-- Draws a given number of tokens. -/
def drawSome (source target : ZoneRef) (count : Int64) : Effect :=
  .draw source target (.int count)

/-- Moves a token to the top of a zone. -/
def moveToTop (token : String) (source target : ZoneRef) : Effect :=
  .moveToken token source target .top

/-- Creates a token with the props of its type. -/
def create (type : String) (zone : ZoneRef) : Effect := .createToken type zone ∅

/-- Asks for a number of options between two given ones. -/
def chooseBetween (bind : String) (options : Query) (min max : Int64) : Effect :=
  .chooseN bind options { atLeast := some (.int min), atMost := some (.int max) }

/-- Runs a body for every item, up to the usual limit. -/
def forAll (bind : String) (source : Query) (body : List Effect) : Effect :=
  .forEach bind source body none

end Effect

end Tabletop
