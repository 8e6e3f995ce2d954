import Tabletop.Definition.Basic

/-!
# Finding the triggers for an event

The triggers of a definition, sorted beforehand by the kind of event that they listen for, each kind
in firing order: higher priority first, and of equal ones the one declared first.

Main definitions: `TriggerIndex.ofDefinition` and `TriggerIndex.candidates`.
-/

namespace Tabletop

/-- A trigger with its position in the definition. -/
abbrev PlacedTrigger := Nat × Trigger

/-- The triggers of each kind that has any, in firing order. -/
structure TriggerIndex where
  byKind : List (EventKind × List PlacedTrigger)
  deriving Inhabited

namespace TriggerIndex

/-- All kinds of events. -/
def kinds : List EventKind :=
  [.phaseEnter, .phaseExit, .turnStart, .turnEnd, .actionResolved, .tokenEntered, .varChanged]

/-- Whether a trigger fires before another, or they are equal. -/
def firesBefore (a b : PlacedTrigger) : Bool := b.2.priority ≤ a.2.priority

/-- The triggers of a definition with their positions. -/
def placed (d : Definition) : List PlacedTrigger := d.triggers.zipIdx.map (fun t => (t.2, t.1))

/-- The triggers of one kind in firing order.  The sort is stable, so ties keep their places. -/
def ofKind (d : Definition) (k : EventKind) : List PlacedTrigger :=
  ((placed d).filter (fun t => t.2.pattern.kind = k)).mergeSort firesBefore

/-- The index of a definition's triggers. -/
def ofDefinition (d : Definition) : TriggerIndex :=
  ⟨(kinds.map (fun k => (k, ofKind d k))).filter (fun e => !e.2.isEmpty)⟩

/-- The triggers that listen for a kind of event, in firing order. -/
def candidates (ix : TriggerIndex) (k : EventKind) : List PlacedTrigger :=
  (ix.byKind.lookup k).getD []

/-- The number of triggers. -/
def size (ix : TriggerIndex) : Nat := (ix.byKind.flatMap (·.2)).length

/-- Whether there is no trigger. -/
def isEmpty (ix : TriggerIndex) : Bool := ix.byKind.isEmpty

end TriggerIndex

end Tabletop
