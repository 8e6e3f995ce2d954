import Tabletop.Play.Standing
import Tabletop.Play.Advance
import Tabletop.State.Fingerprint

/-!
# Making a move

A move that resolves is made in stages: its lasting effects are set up and its use is counted, the
grant that covers it is spent, the triggers react to what happened, the turn order is brought up to
date, and the game goes on to the next decision.  If anything fails, the state from before the move
is the one that counts.

Main definition: `Rules.makeMove`.
-/

namespace Tabletop

/-- What a move led to. -/
structure MoveResult where
  state : State
  /-- The firings of triggers, in order. -/
  firings : List Firing
  warnings : List String
  /-- The changes, in order, if a trace was asked for. -/
  trace : Option (List TraceEntry)
  deriving Inhabited

namespace Rules

/-- Activates the lasting effects of an action that has been taken, and counts its use; tells the
events that the setups raise. -/
def take (r : Rules) (a : Action) (executor : Seat) (params : Dict Selection) (p : Progress) :
    Tracked (Progress × List Event) := do
  let (p, events) ← r.activateLasting a executor (.ofParams params) a.lasting p
  return (p.withState (p.state.recordUsage a.id), events)

/-- Takes the special activity of a move, if it has one. -/
def takeSpecial (r : Rules) (m : Move) (x : Resolution) (p : Progress) :
    Tracked (Progress × List Event) :=
  match x.special, m.compound with
  | some (a, executor), some c => r.take a executor c.special.params p
  | _, _ => .ok (p, [])

/-- The actions that a resolved move takes. -/
def actionsTaken (x : Resolution) : List ActionId :=
  x.action.id :: (x.special.map (fun e => e.1.id)).toList

/-- The progress when the actions of a resolved move have been taken, with all that happened. -/
def takeActions (r : Rules) (m : Move) (x : Resolution) : Tracked (Progress × List Event) := do
  let p : Progress := { state := x.session.state, journal := { trace := x.session.trace } }
  let (p, hostEvents) ← r.take x.action x.executor m.params p
  let (p, specialEvents) ← r.takeSpecial m x p
  let p := match x.grant with
    | some id => p.withState (p.state.consumeGrant id)
    | none => p
  return (p, x.session.events ++ hostEvents ++ specialEvents)

/-- The progress when the triggers have reacted to what happened and to the actions that the mover
took. -/
def reactTo (r : Rules) (x : Resolution) (mover : Seat) (events : List Event) (p : Progress) :
    Tracked Progress := do
  let p ← r.dispatch events p
  r.dispatch ((actionsTaken x).map (fun a => .actionResolved a mover)) p

/-- The progress when the turn order is up to date and the game has gone on. -/
def goOn (r : Rules) (m : Move) (p : Progress) : Tracked Progress := do
  let (outcome, s) := p.state.afterMove r.definition m
  let p := p.withState s
  let p ← if outcome.turnEnded then r.endTurn p else pure p
  r.advance p

/-- What becomes of a resolved move of a seat. -/
def commit (r : Rules) (m : Move) (mover : Seat) (x : Resolution) : Tracked Progress := do
  let (p, events) ← r.takeActions m x
  let p ← r.reactTo x mover events p
  r.goOn m p

/-- Makes a move. -/
def makeMove (r : Rules) (s : State) (m : Move) : Except Failure MoveResult :=
  match r.resolve s m with
  | .error (.fault fault) => .error (.fault fault)
  | .error (.refused rejection) => .error (.illegal rejection)
  | .error (.pending q) =>
    .error (.illegal {
      refusal := .awaitsSelection q.decision.id q.decision.name, action := m.action })
  | .ok x =>
    match r.commit m s.active x with
    | .error breakdown => .error (.fault breakdown.fault)
    | .ok p => .ok {
        state := p.state.stamp
        firings := p.journal.firings
        warnings := x.warnings
        trace := if r.limits.tracing then some p.journal.trace else none }

end Rules

end Tabletop
