import Tabletop.Play.Legal
import Tabletop.Trigger.Cascade
import Tabletop.TurnOrder.Course

/-!
# On to the next decision

After a move the game goes on by itself until there is something to decide: the game is over or the
active seat has a legal move.  On the way it leaves phases, resumes suspended ones, passes over
seats that cannot move, and closes turns.

Leaving a phase raises an event, then ends the lasting effects of the phase and starts its counts
anew; closing a turn does the same for the turn, then hands over to the next seat.

Main definitions: `Rules.transition` and `Rules.advance`.
-/

namespace Tabletop

namespace Rules

/-! ## Lasting effects -/

/-- The state with a lasting effect active. -/
def withLasting (s : State) (l : ActiveLasting) : State := { s with lasting := s.lasting ++ [l] }

/-- Runs the setups of lasting effects and makes them active; tells the events that they raise. -/
def activateLasting (r : Rules) (a : Action) (executor : Seat) (b : Bindings) :
    List LastingEffect → Progress → Tracked (Progress × List Event)
  | [], p => .ok (p, [])
  | l :: ls, p => do
    let setting := r.strict executor (.lastingSetup l.id) (some a.id)
    let x ← p.attempt (runEffects setting ("lasting:" ++ l.id ++ "/setup") b l.setup p.state)
    let p := p.absorb x
    let active : ActiveLasting := { id := l.id, action := a.id, duration := l.duration, executor }
    let (p, events) ← r.activateLasting a executor b ls (p.withState (withLasting p.state active))
    return (p, x.events ++ events)

/-- Undoes lasting effects, the first one first, and puts the events to the triggers. -/
def tearDown (r : Rules) : List ActiveLasting → Progress → Tracked Progress
  | [], p => .ok p
  | l :: ls, p => do
    let declared ← p.attempt
      (orFault (r.definition.lastingEffect? l.id) (.missing .lastingEffect l.id))
    let setting := r.strict l.executor (.lastingTeardown l.id) (some l.action)
    let x ← p.attempt
      (runEffects setting ("lasting:" ++ l.id ++ "/teardown") ∅ declared.teardown p.state)
    let p ← r.dispatch x.events (p.absorb x)
    r.tearDown ls p

/-- Ends the lasting effects of a duration. -/
def expire (r : Rules) (d : Duration) (p : Progress) : Tracked Progress :=
  let s := p.state
  let kept := s.lasting.filter (fun l => l.duration ≠ d)
  r.tearDown (s.lasting.filter (fun l => l.duration = d)) (p.withState { s with lasting := kept })

/-! ## Boundaries -/

/-- Leaves the current phase. -/
def leavePhase (r : Rules) (p : Progress) : Tracked Progress := do
  let p ← r.dispatch [.phaseExit p.state.phase] p
  let p ← r.expire .phase p
  return p.withState (p.state.resetUsage .phase)

/-- The state at the start of a turn. -/
def startTurn (r : Rules) (s : State) : Result State := do
  let s := s.rotate r.definition
  let phase ← orFault r.definition.firstPhase? (.missing .phase "<first phase>")
  return { s with turn := s.turn + 1, phase, suspended := [] }

/-- Closes the turn and starts the next one. -/
def closeTurn (r : Rules) (p : Progress) : Tracked Progress := do
  let p ← r.dispatch [.turnEnd p.state.turn p.state.active] p
  let p ← r.expire .turn p
  let s ← p.attempt (r.startTurn (p.state.resetUsage .turn))
  r.dispatch [.phaseEnter s.phase, .turnStart s.turn s.active] (p.withState s)

/-- Leaves the current phase and closes the turn. -/
def endTurn (r : Rules) (p : Progress) : Tracked Progress := do
  let p ← r.leavePhase p
  r.closeTurn p

/-! ## Transitions -/

/-- Leaves an interrupt and resumes the phase that was suspended for it. -/
def resume (r : Rules) (phase : PhaseId) (p : Progress) : Tracked Progress := do
  let p ← r.leavePhase p
  return p.withState { p.state with suspended := p.state.suspended.dropLast, phase }

/-- Passes over the active seat. -/
def skipSeat (r : Rules) (p : Progress) : Tracked Progress := do
  let (outcome, s) := p.state.skipStuckSeat r.definition
  if outcome.turnEnded then r.endTurn (p.withState s) else return p.withState s

/-- Enters a phase. -/
def enterPhase (r : Rules) (phase : PhaseId) (p : Progress) : Tracked Progress :=
  r.dispatch [.phaseEnter phase]
    (p.withState ({ p.state with phase }.syncActive r.definition))

/-- Leaves the current phase and enters the next, or closes the turn after the last. -/
def nextPhase (r : Rules) (p : Progress) : Tracked Progress := do
  let p ← r.leavePhase p
  match r.definition.turn.after? p.state.phase with
  | some phase => r.enterPhase phase p
  | none => r.closeTurn p

/-- Goes on by one transition. -/
def transition (r : Rules) (p : Progress) : Tracked Progress :=
  match p.state.suspended.getLast? with
  | some phase => r.resume phase p
  | none => if r.definition.order.cards?.isSome then r.skipSeat p else r.nextPhase p

/-- Whether there is something to decide: the game is over or the active seat can move. -/
def atDecision (r : Rules) (s : State) : Result Bool := do
  if (← r.game.outcome? s).isSome then return true else r.hasLegalMove s

/-- Goes on until there is something to decide, by at most so many transitions. -/
def advanceWithin (r : Rules) : Nat → Progress → Tracked Progress
  | 0, p => do
    if ← p.attempt (r.atDecision p.state) then return p
    else p.attempt (.error (.transitionBudget r.limits.maxTransitions.toNat))
  | n + 1, p => do
    if ← p.attempt (r.atDecision p.state) then return p
    else r.advanceWithin n (← r.transition p)

/-- Goes on until there is something to decide. -/
def advance (r : Rules) (p : Progress) : Tracked Progress :=
  r.advanceWithin r.limits.maxTransitions.toNat p

end Rules

end Tabletop
