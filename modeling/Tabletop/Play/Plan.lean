import Tabletop.Play.Seating
import Tabletop.Play.Pipelines
import Tabletop.Limits

/-!
# Planning an action

Before any effect runs, an action of a move is checked against the state: who takes it and for whom,
in which phase, how often, with which params, under which condition, and what carries it out.  What
is left is a plan: a cost and stages, to be carried out for a seat with the params bound.

Declared params are settled before the conditions that read them.  A selector that reads a param
asks for it first of all and only ever sees an existing seat of its domain.

Main definition: `Plan.make`.
-/

namespace Tabletop

/-- A decision that a move leaves open. -/
structure Request where
  decision : Decision
  /-- Whether the special activity has to answer it, and not the host. -/
  special : Bool
  deriving DecidableEq, Repr, Inhabited

/-- Why a move was not resolved. -/
inductive Stop where
  | pending (request : Request)
  | refused (rejection : Rejection)
  | fault (fault : Fault)

/-- A check of a move. -/
abbrev Check := Except Stop

instance : MonadLift Result Check := ⟨fun r => r.mapError Stop.fault⟩

/-- Refuses an action. -/
def refuse {α : Type} (refusal : Refusal) (action : ActionId) : Check α :=
  .error (.refused { refusal, action })

/-- Goes on only if something holds. -/
def ensure (holds : Bool) (refusal : Refusal) (action : ActionId) : Check Unit :=
  if holds then .ok () else refuse refusal action

/-- An action that has been checked, ready to be carried out. -/
structure Plan where
  action : Action
  /-- The seat for which effects run. -/
  executor : Seat
  bindings : Bindings
  cost : List Effect
  stages : List Stage
  payment : Payment
  /-- Whether it is the special activity of a move. -/
  special : Bool
  deriving Inhabited

/-- The decision about a declared param. -/
def Param.decision (p : Param) (domain : List Value) : Decision :=
  .one ("param::" ++ p.name) p.name domain

/-- Whether a scalar is the identity of a member of a domain. -/
def Scalar.isIn (x : Scalar) (domain : List Value) : Bool :=
  domain.any (fun v => v.identity? == some x)

/-- Whether a scalar is the index of an existing seat. -/
def Scalar.isSeat (x : Scalar) (count : Nat) : Bool :=
  match x with
  | .int n => (Seat.ofIndex? n.toInt count).isSome
  | _ => false

namespace Plan

/-- The name of a stage where there are no others. -/
def onlyStage : String := "main"

/-- The stages that a pipeline gives an action. -/
def stagesOf (p : Pipeline) (a : Action) : List Stage :=
  if p.stages.isEmpty then [{ name := onlyStage, effects := a.effects }] else p.stages

/-- The values that a declared param may take. -/
def domain (p : Param) (v : View) : Result (List Value) :=
  inPredicate (.paramDomain p.name) (p.domain.eval v)

/-- Checks the declared param that a selector reads, if it reads one. -/
def checkSelected (a : Action) (m : Move) (special : Bool) (v : View) (sel : SeatSelector) :
    Check Unit :=
  match sel with
  | .binding name =>
    match a.param? name with
    | none => .ok ()
    | some p => do
      let domain ← domain p v
      match m.params.get? name with
      | none => throw (.pending { decision := p.decision domain, special })
      | some chosen =>
        match chosen.scalars.find? (fun x => !(x.isIn domain && x.isSeat v.state.seatCount)) with
        | some x => refuse (.notSeat x.text p.name) a.id
        | none => return ()
  | _ => .ok ()

/-- Checks declared params, one after the other. -/
def checkParams (a : Action) (m : Move) (special : Bool) (v : View) : List Param → Check Unit
  | [] => .ok ()
  | p :: ps => do
    let domain ← domain p v
    match m.params.get? p.name with
    | none => throw (.pending { decision := p.decision domain, special })
    | some (.one x) =>
      if x.isIn domain then checkParams a m special v ps
      else refuse (.outsideDomain x.text p.name) a.id
    | some (.many _) => refuse (.takesSingleValue p.name) a.id

/-- Checks who takes an action; tells for whom its effects run. -/
def checkSeats (a : Action) (m : Move) (special : Bool) (v : View) : Check Seat := do
  let active := v.state.active
  let count := v.state.seatCount
  checkSelected a m special v a.actor
  checkSelected a m special v a.executor
  let actors ← a.actor.resolve a.id active count v.bindings
  let executor ← a.executor.resolveOne a.id active count v.bindings
  ensure (actors.contains active) (.notActor active a.actor) a.id
  return executor

/-- Checks whether an action may be taken in the current phase, and once more. -/
def checkAvailable (a : Action) (s : State) : Check Unit := do
  ensure (a.allowedIn s.phase) (.notInPhase s.phase) a.id
  match s.exhaustedLimit? a with
  | some limit => refuse (.limitReached limit) a.id
  | none => return ()

/-- Chooses what carries out an action: its cost, its stages and how it is paid for. -/
def checkPipeline (a : Action) (free : Bool) (v : View) :
    Check (List Effect × List Stage × Payment) := do
  match ← dispatchPipeline a.id v with
  | .plain =>
    return (a.cost, [{ name := onlyStage, effects := a.effects }], Payment.plain free)
  | .unmatched => refuse .noPipelineApplies a.id
  | .matched p =>
    match ← p.payment free v with
    | .error refusal => refuse refusal a.id
    | .ok payment => return (p.cost, stagesOf p a, payment)

/-- Plans an action with the params of a move. -/
def make (g : Game) (s : State) (m : Move) (a : Action) (free special : Bool) : Check Plan := do
  let bindings := Bindings.ofParams m.params
  let v : View := { game := g, state := s, bindings, actor := s.active }
  let executor ← checkSeats a m special v
  checkAvailable a s
  let v := { v with actor := executor }
  checkParams a m special v a.params
  ensure (← holdsIn (.precondition a.id) a.pre v) .preconditionFails a.id
  let (cost, stages, payment) ← checkPipeline a free v
  return { action := a, executor, bindings, cost, stages, payment, special }

end Plan

end Tabletop
