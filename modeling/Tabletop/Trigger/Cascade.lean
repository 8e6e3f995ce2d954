import Tabletop.Limits

/-!
# Cascades of triggers

An event is put to the triggers that listen for its kind, one after the other.  A trigger that fires
runs its effects, and the events that these raise are put to the triggers in the same way, one level
deeper, before the next trigger has its turn.

How deep a cascade may go is part of the definition.  A trigger that would fire below the deepest
level makes the whole cascade fail, so even triggers that keep setting each other off come to an
end: the dispatcher recurses on the number of levels that are left.

Main definitions: `Trigger.react`, `Rules.dispatchAt` and `Rules.dispatch`.
-/

namespace Tabletop

/-- One firing of a trigger. -/
structure Firing where
  trigger : TriggerId
  event : EventKind
  /-- One for an event that no trigger has raised. -/
  depth : UInt32
  turn : UInt32
  phase : PhaseId
  deriving DecidableEq, Repr, Inhabited

instance : Coded Firing where
  toJson f := .obj
    [("trigger", toJson f.trigger), ("event", toJson f.event), ("depth", toJson f.depth),
      ("turn", toJson f.turn), ("phase", toJson f.phase)]
  ofJson? j := do
    let fs ← j.fields?
    return {
      trigger := ← fs.required "trigger"
      event := ← fs.required "event"
      depth := ← fs.required "depth"
      turn := ← fs.required "turn"
      phase := ← fs.required "phase" }

/-- What has been written down on the way. -/
structure Journal where
  /-- The firings, in order. -/
  firings : List Firing := []
  /-- The changes of moves, triggers and lasting effects, in order. -/
  trace : List TraceEntry := []
  deriving DecidableEq, Repr, Inhabited

/-- A state and what has been written down on the way to it. -/
structure Progress where
  state : State
  journal : Journal := {}
  deriving Inhabited

/-- A fault and what had been written down before it. -/
structure Breakdown where
  fault : Fault
  journal : Journal

/-- A computation that hands out its journal even when it fails. -/
abbrev Tracked := Except Breakdown

namespace Progress

/-- The progress with another state. -/
def withState (p : Progress) (state : State) : Progress := { p with state }

/-- Does something that does not write anything down. -/
def attempt {α : Type} (p : Progress) (r : Result α) : Tracked α :=
  r.mapError (fun fault => ⟨fault, p.journal⟩)

/-- The progress after one more firing. -/
def log (p : Progress) (f : Firing) : Progress :=
  { p with journal := { p.journal with firings := p.journal.firings ++ [f] } }

/-- The progress after effects have been run: their state and their trace. -/
def absorb (p : Progress) (x : Session) : Progress where
  state := x.state
  journal := { p.journal with trace := p.journal.trace ++ x.trace }

end Progress

namespace Trigger

/-- The seat in whose name triggers react to an event. -/
def actor (e : Event) (s : State) : Seat := e.seat?.getD s.active

/-- Whether a trigger fires: its pattern accepts the event and both conditions hold. -/
def fires (t : Trigger) (g : Game) (e : Event) (s : State) : Result Bool :=
  if t.pattern.accepted e then do
    let v : View := { game := g, state := s, bindings := e.bindings, actor := actor e s }
    if ← holdsIn (.triggerMatch t.id) t.matching v then
      holdsIn (.triggerWhen t.id) t.when v
    else return false
  else return false

/-- Writes down that a trigger fires, then runs its effects; tells the events that they raise. -/
def fire (t : Trigger) (r : Rules) (depth : UInt32) (e : Event) (p : Progress) :
    Tracked (Progress × List Event) := do
  let p := p.log {
    trigger := t.id, event := e.kind, depth, turn := p.state.turn, phase := p.state.phase }
  let setting := r.strict (actor e p.state) (.trigger t.id depth) none
  let x ← p.attempt (runEffects setting ("trigger:" ++ t.id) e.bindings t.effects p.state)
  return (p.absorb x, x.events)

/-- Lets a trigger react to an event.  `onward` puts the events that it raises to the triggers;
below the deepest level there is none, and nothing may fire. -/
def react (r : Rules) (depth : UInt32) (onward : Option (Event → Progress → Tracked Progress))
    (e : Event) (p : Progress) (t : Trigger) : Tracked Progress := do
  if ← p.attempt (t.fires r.game e p.state) then
    match onward with
    | none => p.attempt (.error (.cascadeDepth r.definition.metadata.maxTriggerDepth e))
    | some next =>
      let (p, events) ← t.fire r depth e p
      events.foldlM (fun p e => next e p) p
  else return p

end Trigger

namespace Rules

/-- The depth of the level with `left` levels left. -/
def depthAt (r : Rules) (left : Nat) : UInt32 :=
  UInt32.ofNat (r.definition.metadata.maxTriggerDepth.toNat + 1 - left)

/-- Puts an event to the triggers, with a number of levels left. -/
def dispatchAt (r : Rules) : Nat → Event → Progress → Tracked Progress
  | 0, e, p =>
    (r.game.triggers.candidates e.kind).foldlM (fun p t => t.2.react r (r.depthAt 0) none e p) p
  | left + 1, e, p =>
    (r.game.triggers.candidates e.kind).foldlM
      (fun p t => t.2.react r (r.depthAt (left + 1)) (some (r.dispatchAt left)) e p) p

/-- Puts events to the triggers, one after the other. -/
def dispatch (r : Rules) (events : List Event) (p : Progress) : Tracked Progress :=
  events.foldlM (fun p e => r.dispatchAt r.definition.metadata.maxTriggerDepth.toNat e p) p

end Rules

end Tabletop
