import Tabletop.Board.Store
import Tabletop.Fault

/-!
# Stacking limits

How many tokens a zone may hold.  A limit governs the zones it lists, or all, if they are of its
category; it counts the tokens of the types it lists, or all.

Main definition: `checkStacking`.
-/

namespace Tabletop

/-- Whether a limit governs a zone. -/
def StackingLimit.governs (limit : StackingLimit) (d : Definition) (zone : ZoneId) : Bool :=
  (limit.zones.isEmpty || limit.zones.contains zone) &&
    match limit.zoneCategory with
    | some category => (d.zone? zone >>= Zone.category) == some category
    | none => true

/-- The number of tokens that a limit counts. -/
def StackingLimit.count (limit : StackingLimit) (tokens : List Token) : Nat :=
  tokens.countP (fun t => limit.counts t.type)

/-- Fails if a zone holds more than one of its limits allows; of several such limits the one
declared first is named. -/
def checkStacking (d : Definition) (store : Store) (zone : ZoneId) : Result Unit :=
  match store.tokens? zone with
  | none => .ok ()
  | some tokens =>
    match d.stackingLimits.find? (fun l =>
        l.governs d zone && decide (l.max.toNat < l.count tokens)) with
    | some l => .error (.stacking l.id zone (l.count tokens) l.max)
    | none => .ok ()

end Tabletop
