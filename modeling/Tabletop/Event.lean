import Tabletop.Expr.Bindings

/-!
# Events

What triggers react to.  Effects raise events as they change the state, phases and turns raise them
at their boundaries, and every action that has been taken raises one.  A trigger listens with a
pattern; the names that an event binds can be read by its conditions and effects.

Main definitions: `Event`, `EventPattern` and `EventPattern.accepts`.
-/

namespace Tabletop

open Json

/-- Where a variable lives. -/
inductive VarScope where
  | global
  | seat (seat : Seat)
  | zone (zone : ZoneId)
  deriving DecidableEq, Repr, Inhabited

instance : Coded VarScope where
  toJson
    | .global => .str "global"
    | .seat seat => .variant "player" (toJson seat)
    | .zone zone => .variant "zone" (toJson zone)
  ofJson? j :=
    match j.variant? with
    | some ("global", none) => some .global
    | some ("player", some x) => (ofJson? x).map VarScope.seat
    | some ("zone", some x) => (ofJson? x).map VarScope.zone
    | _ => none

/-- The kinds of events. -/
inductive EventKind where
  | phaseEnter
  | phaseExit
  | turnStart
  | turnEnd
  | actionResolved
  | tokenEntered
  | varChanged
  deriving DecidableEq, Repr, Inhabited

/-- The name of a kind. -/
def EventKind.text : EventKind → String
  | phaseEnter => "phaseEnter"
  | phaseExit => "phaseExit"
  | turnStart => "turnStart"
  | turnEnd => "turnEnd"
  | actionResolved => "actionResolved"
  | tokenEntered => "tokenEntered"
  | varChanged => "varChanged"

instance : Coded EventKind where
  toJson k := .str k.text
  ofJson?
    | .str "phaseEnter" => some .phaseEnter
    | .str "phaseExit" => some .phaseExit
    | .str "turnStart" => some .turnStart
    | .str "turnEnd" => some .turnEnd
    | .str "actionResolved" => some .actionResolved
    | .str "tokenEntered" => some .tokenEntered
    | .str "varChanged" => some .varChanged
    | _ => none

/-- Something that has happened. -/
inductive Event where
  | phaseEnter (phase : PhaseId)
  | phaseExit (phase : PhaseId)
  | turnStart (turn : UInt32) (seat : Seat)
  | turnEnd (turn : UInt32) (seat : Seat)
  | actionResolved (action : ActionId) (actor : Seat)
  /-- A token has come into a zone; a created token comes from none. -/
  | tokenEntered (token : TokenId) (source : Option ZoneId) (zone : ZoneId)
  | varChanged (scope : VarScope) (name : String) (old new : Int64)
  deriving DecidableEq, Repr, Inhabited

namespace Event

/-- The kind of an event. -/
def kind : Event → EventKind
  | phaseEnter .. => .phaseEnter
  | phaseExit .. => .phaseExit
  | turnStart .. => .turnStart
  | turnEnd .. => .turnEnd
  | actionResolved .. => .actionResolved
  | tokenEntered .. => .tokenEntered
  | varChanged .. => .varChanged

/-- The seat that an event is about, if it is about one. -/
def seat? : Event → Option Seat
  | turnStart _ seat => some seat
  | turnEnd _ seat => some seat
  | actionResolved _ actor => some actor
  | varChanged (.seat seat) _ _ _ => some seat
  | _ => none

/-- The names that an event binds, in the order in which they are bound. -/
def namedValues : Event → List (String × Value)
  | phaseEnter phase => [("$phase", .str phase)]
  | phaseExit phase => [("$phase", .str phase)]
  | turnStart turn seat => [("$turn", .int (Int64.ofNat turn.toNat)), ("$player", .seat seat)]
  | turnEnd turn seat => [("$turn", .int (Int64.ofNat turn.toNat)), ("$player", .seat seat)]
  | actionResolved action actor => [("$action", .str action), ("$player", .seat actor)]
  | tokenEntered token source zone =>
    [("$token", .token token), ("$zone", .str zone)] ++
      (source.map (fun z => ("$from", Value.str z))).toList
  | varChanged scope name old new =>
    [("$var", .str name), ("$old", .int old), ("$new", .int new)] ++
      match scope with
      | .global => []
      | .seat seat => [("$player", .seat seat)]
      | .zone zone => [("$zone", .str zone)]

/-- The bindings that an event brings: its kind, then its own names. -/
def bindings (e : Event) : Bindings :=
  .ofList (("$event", .str e.kind.text) :: e.namedValues)

/-- The event as shown to a reader. -/
def text : Event → String
  | phaseEnter phase => "phaseEnter(" ++ phase ++ ")"
  | phaseExit phase => "phaseExit(" ++ phase ++ ")"
  | turnStart turn seat => "turnStart(" ++ toString turn.toNat ++ ", " ++ seat.text ++ ")"
  | turnEnd turn seat => "turnEnd(" ++ toString turn.toNat ++ ", " ++ seat.text ++ ")"
  | actionResolved action actor => "actionResolved(" ++ action ++ ", " ++ actor.text ++ ")"
  | tokenEntered token _ zone => "tokenEntered(" ++ token ++ " -> " ++ zone ++ ")"
  | varChanged _ name old new =>
    "varChanged(" ++ name ++ ": " ++ toString old.toInt ++ " -> " ++ toString new.toInt ++ ")"

end Event

instance : Coded Event where
  toJson
    | .phaseEnter phase => .variant "phaseEnter" (.obj [("phase", toJson phase)])
    | .phaseExit phase => .variant "phaseExit" (.obj [("phase", toJson phase)])
    | .turnStart turn seat =>
      .variant "turnStart" (.obj [("turn", toJson turn), ("player", toJson seat)])
    | .turnEnd turn seat =>
      .variant "turnEnd" (.obj [("turn", toJson turn), ("player", toJson seat)])
    | .actionResolved action actor =>
      .variant "actionResolved" (.obj [("action", toJson action), ("actor", toJson actor)])
    | .tokenEntered token source zone =>
      .variant "tokenEntered"
        (.obj [("token", toJson token), ("from", toJson source), ("zone", toJson zone)])
    | .varChanged scope name old new =>
      .variant "varChanged"
        (.obj [("scope", toJson scope), ("var", toJson name), ("old", toJson old),
          ("new", toJson new)])
  ofJson? j := do
    let (name, contents) ← j.variant?
    let fs ← contents >>= Json.fields?
    match name with
    | "phaseEnter" => return .phaseEnter (← fs.required "phase")
    | "phaseExit" => return .phaseExit (← fs.required "phase")
    | "turnStart" => return .turnStart (← fs.required "turn") (← fs.required "player")
    | "turnEnd" => return .turnEnd (← fs.required "turn") (← fs.required "player")
    | "actionResolved" => return .actionResolved (← fs.required "action") (← fs.required "actor")
    | "tokenEntered" =>
      return .tokenEntered (← fs.required "token") (← fs.withDefault "from" none)
        (← fs.required "zone")
    | "varChanged" =>
      return .varChanged (← fs.required "scope") (← fs.required "var") (← fs.required "old")
        (← fs.required "new")
    | _ => none

/-- What a trigger listens for.  A part that is not given accepts anything. -/
inductive EventPattern where
  | phaseEnter (phase : Option PhaseId)
  | phaseExit (phase : Option PhaseId)
  | turnStart
  | turnEnd
  | actionResolved (action : Option ActionId)
  | tokenEntered (zone : Option ZoneId)
  | varChanged (name : Option String)
  deriving DecidableEq, Repr, Inhabited

namespace EventPattern

/-- The kind of the events that a pattern listens for. -/
def kind : EventPattern → EventKind
  | phaseEnter _ => .phaseEnter
  | phaseExit _ => .phaseExit
  | turnStart => .turnStart
  | turnEnd => .turnEnd
  | actionResolved _ => .actionResolved
  | tokenEntered _ => .tokenEntered
  | varChanged _ => .varChanged

/-- Whether a wanted part accepts the actual one. -/
def accepts (wanted : Option String) (actual : String) : Bool := wanted.all (· == actual)

/-- Whether a pattern accepts an event. -/
def accepted : EventPattern → Event → Bool
  | phaseEnter wanted, .phaseEnter phase => accepts wanted phase
  | phaseExit wanted, .phaseExit phase => accepts wanted phase
  | turnStart, .turnStart .. => true
  | turnEnd, .turnEnd .. => true
  | actionResolved wanted, .actionResolved action _ => accepts wanted action
  | tokenEntered wanted, .tokenEntered _ _ zone => accepts wanted zone
  | varChanged wanted, .varChanged _ name _ _ => accepts wanted name
  | _, _ => false

end EventPattern

instance : Coded EventPattern where
  toJson
    | .phaseEnter phase => .variant "phaseEnter" (.obj [("phase", toJson phase)])
    | .phaseExit phase => .variant "phaseExit" (.obj [("phase", toJson phase)])
    | .turnStart => .str "turnStart"
    | .turnEnd => .str "turnEnd"
    | .actionResolved action => .variant "actionResolved" (.obj [("action", toJson action)])
    | .tokenEntered zone => .variant "tokenEntered" (.obj [("zone", toJson zone)])
    | .varChanged name => .variant "varChanged" (.obj [("var", toJson name)])
  ofJson? j :=
    match j.variant? with
    | some ("turnStart", none) => some .turnStart
    | some ("turnEnd", none) => some .turnEnd
    | some ("phaseEnter", some x) => do
      let fs ← x.fields?
      return .phaseEnter (← fs.withDefault "phase" none)
    | some ("phaseExit", some x) => do
      let fs ← x.fields?
      return .phaseExit (← fs.withDefault "phase" none)
    | some ("actionResolved", some x) => do
      let fs ← x.fields?
      return .actionResolved (← fs.withDefault "action" none)
    | some ("tokenEntered", some x) => do
      let fs ← x.fields?
      return .tokenEntered (← fs.withDefault "zone" none)
    | some ("varChanged", some x) => do
      let fs ← x.fields?
      return .varChanged (← fs.withDefault "var" none)
    | _ => none

end Tabletop
