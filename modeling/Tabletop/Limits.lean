import Tabletop.Effect.Run

/-!
# Limits

How much work a call may do, and whether it keeps a trace.  A call that needs more than its limits
fails; limits never change what a call that succeeds answers.  In their JSON form every part may be
left out, and is then as usual.

Main definitions: `Limits` for a call, `Listing` for a list of moves, and `Rules`, a game under
limits.
-/

namespace Tabletop

/-- The number of transitions between two moves, unless it is said otherwise. -/
def usualTransitions : UInt32 := 64

/-- The number of moves in a list, unless it is said otherwise. -/
def usualMoves : Nat := 10000

/-- A field that may be left out or `null`; either means the usual value. -/
def Json.Fields.orUsual {α : Type} [Coded α] (fs : Json.Fields) (name : String) (usual : α) :
    Option α :=
  (fs.withDefault name (none : Option α)).map (·.getD usual)

/-- How much work resolving and making one move may take. -/
structure Limits where
  /-- The operations of the effects that are run together. -/
  maxOps : UInt32 := usualOps
  /-- The transitions between a move and the next. -/
  maxTransitions : UInt32 := usualTransitions
  /-- Whether a trace is kept. -/
  tracing : Bool := false
  deriving DecidableEq, Repr, Inhabited

instance : Coded Limits where
  toJson l := .obj
    [("max_effect_ops", toJson l.maxOps),
      ("max_phase_transitions_per_move", toJson l.maxTransitions), ("trace", toJson l.tracing)]
  ofJson? j := do
    let fs ← j.fields?
    return {
      maxOps := ← fs.orUsual "max_effect_ops" usualOps
      maxTransitions := ← fs.orUsual "max_phase_transitions_per_move" usualTransitions
      tracing := ← fs.orUsual "trace" false }

/-- Which legal moves are listed. -/
structure Listing where
  /-- The list ends when it has as many moves. -/
  maxMoves : Nat := usualMoves
  /-- Whether moves with a special activity are listed too. -/
  compounds : Bool := false
  limits : Limits := {}
  deriving DecidableEq, Repr, Inhabited

instance : Coded Listing where
  toJson l := .obj
    [("max_moves", .int l.maxMoves), ("include_compound", toJson l.compounds),
      ("kernel", toJson l.limits)]
  ofJson? j := do
    let fs ← j.fields?
    return {
      maxMoves :=
        (← fs.withDefaultBy (Json.optionBy Json.count?) "max_moves" none).getD usualMoves
      compounds := ← fs.orUsual "include_compound" false
      limits := ← fs.orUsual "kernel" {} }

/-- A game together with the limits of a call. -/
structure Rules where
  game : Game
  limits : Limits := {}

namespace Rules

/-- The definition of the game. -/
def definition (r : Rules) : Definition := r.game.definition

/-- The setting in which effects run for a seat where no decision may be left open. -/
def strict (r : Rules) (actor : Seat) (cause : Cause) (action : Option ActionId) : Setting where
  game := r.game
  actor := actor
  maxOps := r.limits.maxOps
  tracing := r.limits.tracing
  cause := cause
  action := action

end Rules

end Tabletop
