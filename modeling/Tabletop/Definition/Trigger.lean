import Tabletop.Event
import Tabletop.Effect.Form

/-!
# Triggers

A trigger runs effects when an event happens that its pattern accepts and its two conditions hold.
Of several triggers the one of higher priority comes first, and of equal ones the one declared
first.

Main definition: `Trigger`.
-/

namespace Tabletop

/-- A reaction to events. -/
structure Trigger where
  id : TriggerId
  pattern : EventPattern
  matching : Option Cond := none
  when : Option Cond := none
  effects : List Effect
  priority : Int32 := 0
  deriving Inhabited

namespace Trigger

/-- A trigger without conditions that does nothing. -/
def on (id : TriggerId) (pattern : EventPattern) : Trigger := { id, pattern, effects := [] }

/-- The trigger with one more effect. -/
def addEffect (t : Trigger) (e : Effect) : Trigger := { t with effects := t.effects ++ [e] }

end Trigger

instance : Coded Trigger where
  toJson t := .obj
    [("id", toJson t.id), ("event", toJson t.pattern), ("match", toJson t.matching),
      ("when", toJson t.when), ("effects", toJson t.effects), ("priority", toJson t.priority)]
  ofJson? j := do
    let fs ← j.fields?
    return {
      id := ← fs.required "id"
      pattern := ← fs.required "event"
      matching := ← fs.withDefault "match" none
      when := ← fs.withDefault "when" none
      effects := ← fs.required "effects"
      priority := ← fs.withDefault "priority" 0 }

end Tabletop
