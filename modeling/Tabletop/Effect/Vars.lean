import Tabletop.Effect.Session

/-!
# Effects on variables and markers

A variable never leaves its bounds: what is written is clamped.  A write that changes nothing goes
unnoticed; any other raises an event.

Main definitions: `Site.setVar`, `Site.addVar` and `Site.setMarker`.
-/

namespace Tabletop

/-- A variable that an effect writes. -/
structure VarSlot where
  scope : VarScope
  declared : Variable
  current : Int64

/-- The integer that a value gives a variable: a boolean counts as zero or one. -/
def Value.varInt? : Value → Option Int64
  | .scalar (.int n) => some n
  | .scalar (.bool b) => some (if b then 1 else 0)
  | _ => none

namespace Site

/-- Finds the variable that a target and a name mean.  One that is not stored has its initial
value. -/
def varSlot (s : Site) (x : Session) (target : VarTarget) (name : String) : Result VarSlot :=
  match target with
  | .global => do
    let declared ← orFault (s.definition.globalVar? name) (.missing .globalVar name)
    return {
      scope := .global, declared
      current := (x.state.globalVar? name).getD declared.initial }
  | .seat seat => do
    let seat ← seat.resolve (s.view x)
    let declared ← orFault (s.definition.seatVar? name) (.missing .seatVar name)
    return {
      scope := .seat seat, declared
      current := (x.state.seatVar? seat name).getD declared.initial }
  | .zone zone => do
    let zone ← zone.resolve (s.view x)
    let declared ← orFault (s.definition.zoneVar? name) (.missing .zoneVar name)
    return {
      scope := .zone zone, declared
      current := (x.state.zoneVar? zone name).getD declared.initial }

/-- Stores the value of a variable, if it is a new one. -/
def storeVar (s : Site) (x : Session) (scope : VarScope) (name : String) (old new : Int64) :
    Session :=
  if old = new then x
  else
    s.note ((x.withState (x.state.setVar scope name new)).raise (.varChanged scope name old new))
      (.varChanged scope name old new)

/-- Writes a variable. -/
def setVar (s : Site) (x : Session) (target : VarTarget) (name : String) (value : Expr) :
    Result Session := do
  let value ← value.eval (s.view x)
  let n ← orFault value.varInt? (.mismatch "int" value.typeName (.named name))
  let slot ← s.varSlot x target name
  return s.storeVar x slot.scope name slot.current (slot.declared.clamp n.toInt)

/-- Adds to a variable.  The sum is exact before it is clamped. -/
def addVar (s : Site) (x : Session) (target : VarTarget) (name : String) (delta : Expr) :
    Result Session := do
  let delta ← delta.evalInt (s.view x)
  let slot ← s.varSlot x target name
  return s.storeVar x slot.scope name slot.current
    (slot.declared.clamp (slot.current.toInt + delta.toInt))

/-- Puts a marker into one of its states. -/
def setMarker (s : Site) (x : Session) (space : ZoneRef) (marker : String) (state : Expr) :
    Attempt Session := do
  let space ← space.resolve (s.view x)
  let value ← state.eval (s.view x)
  let new ← orFault value.str? (.mismatch "str" value.typeName (.named marker))
  let lattice ← orFault (s.definition.marker? marker) (.missing .marker marker)
  if lattice.has new then
    let old ← x.state.marker s.definition space marker
    if old = new then return x
    else
      return s.note (x.withState (x.state.setMarker space marker new))
        (.markerChanged space marker old new)
  else s.fail (.unknownMarkerState new marker)

end Site

end Tabletop
