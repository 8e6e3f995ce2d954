import Tabletop.Event

/-!
# Traces

A trace lists the changes that effects made, in order, each with where it came from.  It is kept
only when it is asked for.

Main definitions: `Change` and `TraceEntry`.
-/

namespace Tabletop

open Json

/-- What caused effects to run. -/
inductive Cause where
  | setup
  | cost
  | action
  | trigger (trigger : TriggerId) (depth : UInt32)
  | lastingSetup (id : String)
  | lastingTeardown (id : String)
  /-- They were run on their own. -/
  | direct
  deriving DecidableEq, Repr, Inhabited

instance : Coded Cause where
  toJson
    | .setup => .str "setup"
    | .cost => .str "cost"
    | .action => .str "action"
    | .trigger trigger depth =>
      .variant "trigger" (.obj [("trigger", toJson trigger), ("depth", toJson depth)])
    | .lastingSetup id => .variant "lastingSetup" (.obj [("id", toJson id)])
    | .lastingTeardown id => .variant "lastingTeardown" (.obj [("id", toJson id)])
    | .direct => .str "direct"
  ofJson? j :=
    match j.variant? with
    | some ("setup", none) => some .setup
    | some ("cost", none) => some .cost
    | some ("action", none) => some .action
    | some ("direct", none) => some .direct
    | some ("trigger", some x) => do
      let fs ← x.fields?
      return .trigger (← fs.required "trigger") (← fs.required "depth")
    | some ("lastingSetup", some x) => do
      let fs ← x.fields?
      return .lastingSetup (← fs.required "id")
    | some ("lastingTeardown", some x) => do
      let fs ← x.fields?
      return .lastingTeardown (← fs.required "id")
    | _ => none

/-- A change of a state that a spectator can see. -/
inductive Change where
  | tokenMoved (token : TokenId) (source target : ZoneId)
  | tokenCreated (token : TokenId) (zone : ZoneId)
  | tokenDestroyed (token : TokenId) (zone : ZoneId)
  | varChanged (scope : VarScope) (name : String) (old new : Int64)
  | tokenPropChanged (token : TokenId) (prop : String) (old new : Scalar)
  | markerChanged (space : ZoneId) (marker : String) (old new : String)
  | zoneShuffled (zone : ZoneId)
  deriving DecidableEq, Repr, Inhabited

instance : Coded Change where
  toJson
    | .tokenMoved token source target =>
      .variant "tokenMoved"
        (.obj [("token", toJson token), ("from", toJson source), ("to", toJson target)])
    | .tokenCreated token zone =>
      .variant "tokenCreated" (.obj [("token", toJson token), ("zone", toJson zone)])
    | .tokenDestroyed token zone =>
      .variant "tokenDestroyed" (.obj [("token", toJson token), ("zone", toJson zone)])
    | .varChanged scope name old new =>
      .variant "varChanged"
        (.obj [("scope", toJson scope), ("var", toJson name), ("old", toJson old),
          ("new", toJson new)])
    | .tokenPropChanged token prop old new =>
      .variant "tokenPropChanged"
        (.obj [("token", toJson token), ("prop", toJson prop), ("old", toJson old),
          ("new", toJson new)])
    | .markerChanged space marker old new =>
      .variant "markerChanged"
        (.obj [("space", toJson space), ("marker", toJson marker), ("old", toJson old),
          ("new", toJson new)])
    | .zoneShuffled zone => .variant "zoneShuffled" (.obj [("zone", toJson zone)])
  ofJson? j := do
    let (name, contents) ← j.variant?
    let fs ← contents >>= Json.fields?
    match name with
    | "tokenMoved" =>
      return .tokenMoved (← fs.required "token") (← fs.required "from") (← fs.required "to")
    | "tokenCreated" => return .tokenCreated (← fs.required "token") (← fs.required "zone")
    | "tokenDestroyed" => return .tokenDestroyed (← fs.required "token") (← fs.required "zone")
    | "varChanged" =>
      return .varChanged (← fs.required "scope") (← fs.required "var") (← fs.required "old")
        (← fs.required "new")
    | "tokenPropChanged" =>
      return .tokenPropChanged (← fs.required "token") (← fs.required "prop")
        (← fs.required "old") (← fs.required "new")
    | "markerChanged" =>
      return .markerChanged (← fs.required "space") (← fs.required "marker")
        (← fs.required "old") (← fs.required "new")
    | "zoneShuffled" => return .zoneShuffled (← fs.required "zone")
    | _ => none

/-- Where a change came from. -/
structure Provenance where
  /-- The phase in which it was made. -/
  phase : PhaseId
  cause : Cause
  action : Option ActionId
  /-- The effect that made it. -/
  path : String
  deriving DecidableEq, Repr, Inhabited

instance : Coded Provenance where
  toJson p := .obj
    [("phase", toJson p.phase), ("event_context", toJson p.cause), ("action_id", toJson p.action),
      ("effect_path", toJson p.path)]
  ofJson? j := do
    let fs ← j.fields?
    return {
      phase := ← fs.required "phase"
      cause := ← fs.required "event_context"
      action := ← fs.withDefault "action_id" none
      path := ← fs.required "effect_path" }

/-- A change with its provenance. -/
structure TraceEntry where
  change : Change
  provenance : Provenance
  deriving DecidableEq, Repr, Inhabited

instance : Coded TraceEntry where
  toJson t := .obj [("kind", toJson t.change), ("provenance", toJson t.provenance)]
  ofJson? j := do
    let fs ← j.fields?
    return { change := ← fs.required "kind", provenance := ← fs.required "provenance" }

end Tabletop
