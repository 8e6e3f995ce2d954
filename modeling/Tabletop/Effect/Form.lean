import Tabletop.Effect.Basic

/-!
# The JSON form of effects

Each effect is written under the name of its kind, with its parts as named fields.

Main definitions: `Effect.write` and `Effect.read`.
-/

namespace Tabletop

open Json

instance : Coded VarTarget where
  toJson
    | .global => .str "global"
    | .seat seat => .variant "player" (toJson seat)
    | .zone zone => .variant "zone" (toJson zone)
  ofJson? j :=
    match j.variant? with
    | some ("global", none) => some .global
    | some ("player", some x) => (ofJson? x).map VarTarget.seat
    | some ("zone", some x) => (ofJson? x).map VarTarget.zone
    | _ => none

instance : Coded InsertAt where
  toJson
    | .top => .str "top"
    | .bottom => .str "bottom"
    | .random => .str "random"
  ofJson?
    | .str "top" => some .top
    | .str "bottom" => some .bottom
    | .str "random" => some .random
    | _ => none

instance : Coded PriorityGroup where
  toJson g := .obj [("over", toJson g.source), ("to", toJson g.target)]
  ofJson? j := do
    let fs ← j.fields?
    return { source := ← fs.required "over", target := ← fs.required "to" }

instance : Coded GrantSequence where
  toJson s := .obj [("batch", toJson s.batch), ("index", toJson s.index)]
  ofJson? j := do
    let fs ← j.fields?
    return { batch := ← fs.required "batch", index := ← fs.required "index" }

instance : Coded GrantOffer where
  toJson o := .obj
    [("seat", toJson o.seat), ("operation_class", toJson o.operationClass),
      ("action_ids", toJson o.actions), ("zone_filter", toJson o.zoneFilter),
      ("uses", toJson o.uses), ("sequence", toJson o.sequence)]
  ofJson? j := do
    let fs ← j.fields?
    return {
      seat := ← fs.required "seat"
      operationClass := ← fs.withDefault "operation_class" none
      actions := ← fs.withDefault "action_ids" []
      zoneFilter := ← fs.withDefault "zone_filter" none
      uses := ← fs.withDefault "uses" 1
      sequence := ← fs.withDefault "sequence" none }

namespace Effect

/-! ## Writing -/

mutual

/-- The form of an effect. -/
def write : Effect → Json
  | .setVar target name value =>
    .variant "setVar"
      (.obj [("target", toJson target), ("var", .str name), ("value", toJson value)])
  | .addVar target name delta =>
    .variant "addVar"
      (.obj [("target", toJson target), ("var", .str name), ("delta", toJson delta)])
  | .moveToken token source target place =>
    .variant "moveToken"
      (.obj [("token", .str token), ("from", toJson source), ("to", toJson target),
        ("position", toJson place)])
  | .moveAll source target filter =>
    .variant "moveAll"
      (.obj [("from", toJson source), ("to", toJson target), ("filter", toJson filter)])
  | .moveTokenAdjacent token source target place =>
    .variant "moveTokenAdjacent"
      (.obj [("token", .str token), ("from", toJson source), ("to", toJson target),
        ("position", toJson place)])
  | .draw source target count =>
    .variant "draw"
      (.obj [("from", toJson source), ("to", toJson target), ("count", toJson count)])
  | .shuffle zone => .variant "shuffle" (.obj [("zone", toJson zone)])
  | .createToken type zone props =>
    .variant "createToken"
      (.obj [("token_type", .str type), ("zone", toJson zone), ("props", toJson props)])
  | .destroyToken token => .variant "destroyToken" (.obj [("token", .str token)])
  | .setTokenProp token prop value =>
    .variant "setTokenProp"
      (.obj [("token", .str token), ("prop", .str prop), ("value", toJson value)])
  | .setMarker space marker state =>
    .variant "setMarker"
      (.obj [("space", toJson space), ("marker", .str marker), ("state", toJson state)])
  | .ifThenElse when yes no =>
    .variant "if"
      (.obj [("when", toJson when), ("then", .arr (writeAll yes)),
        ("otherwise", .arr (writeAll no))])
  | .forEach bind source body limit =>
    .variant "forEach"
      (.obj [("bind", .str bind), ("over", toJson source), ("effects", .arr (writeAll body)),
        ("limit", toJson limit)])
  | .letIn bind value body =>
    .variant "let"
      (.obj [("bind", .str bind), ("value", toJson value), ("effects", .arr (writeAll body))])
  | .reduce source item acc initial next result body =>
    .variant "reduce"
      (.obj [("over", toJson source), ("item", .str item), ("acc", .str acc),
        ("initial", toJson initial), ("next", toJson next), ("result", .str result),
        ("effects", .arr (writeAll body))])
  | .rollRandom bind min max body =>
    .variant "rollRandom"
      (.obj [("bind", .str bind), ("min", toJson min), ("max", toJson max),
        ("effects", .arr (writeAll body))])
  | .removeByPriority budget groups countBind body =>
    .variant "removeByPriority"
      (.obj [("budget", toJson budget), ("groups", toJson groups),
        ("count_bind", toJson countBind), ("effects", .arr (writeAll body))])
  | .chooseOne bind options =>
    .variant "chooseOne" (.obj [("bind", .str bind), ("options", toJson options)])
  | .chooseN bind options cardinality =>
    .variant "chooseN"
      (.obj [("bind", .str bind), ("options", toJson options), ("n", toJson cardinality.exactly),
        ("min", toJson cardinality.atLeast), ("max", toJson cardinality.atMost)])
  | .grantFreeOperation offer => .variant "grantFreeOperation" (toJson offer)
  | .setEligibilityOverride seat eligible =>
    .variant "setEligibilityOverride"
      (.obj [("seat", toJson seat), ("eligible", .bool eligible)])
  | .pushInterruptPhase phase =>
    .variant "pushInterruptPhase" (.obj [("phase", .str phase)])

/-- The forms of several effects. -/
def writeAll : List Effect → List Json
  | [] => []
  | e :: es => write e :: writeAll es

end

/-! ## Reading -/

/-- Reads an effect whose form nests at most as deep as the first argument says. -/
def read : Nat → Json → Option Effect
  | 0, _ => none
  | n + 1, j => do
    let (name, contents) ← j.variant?
    let fs ← contents >>= Json.fields?
    match name with
    | "setVar" =>
      return .setVar (← fs.required "target") (← fs.required "var") (← fs.required "value")
    | "addVar" =>
      return .addVar (← fs.required "target") (← fs.required "var") (← fs.required "delta")
    | "moveToken" =>
      return .moveToken (← fs.required "token") (← fs.required "from") (← fs.required "to")
        (← fs.withDefault "position" .top)
    | "moveAll" =>
      return .moveAll (← fs.required "from") (← fs.required "to")
        (← fs.withDefault "filter" .all)
    | "moveTokenAdjacent" =>
      return .moveTokenAdjacent (← fs.required "token") (← fs.required "from")
        (← fs.required "to") (← fs.withDefault "position" .top)
    | "draw" =>
      return .draw (← fs.required "from") (← fs.required "to") (← fs.required "count")
    | "shuffle" => return .shuffle (← fs.required "zone")
    | "createToken" =>
      return .createToken (← fs.required "token_type") (← fs.required "zone")
        (← fs.withDefault "props" ∅)
    | "destroyToken" => return .destroyToken (← fs.required "token")
    | "setTokenProp" =>
      return .setTokenProp (← fs.required "token") (← fs.required "prop")
        (← fs.required "value")
    | "setMarker" =>
      return .setMarker (← fs.required "space") (← fs.required "marker") (← fs.required "state")
    | "if" =>
      return .ifThenElse (← fs.required "when") (← fs.requiredBy (listBy (read n)) "then")
        (← fs.withDefaultBy (listBy (read n)) "otherwise" [])
    | "forEach" =>
      return .forEach (← fs.required "bind") (← fs.required "over")
        (← fs.requiredBy (listBy (read n)) "effects") (← fs.withDefault "limit" none)
    | "let" =>
      return .letIn (← fs.required "bind") (← fs.required "value")
        (← fs.requiredBy (listBy (read n)) "effects")
    | "reduce" =>
      return .reduce (← fs.required "over") (← fs.required "item") (← fs.required "acc")
        (← fs.required "initial") (← fs.required "next") (← fs.required "result")
        (← fs.requiredBy (listBy (read n)) "effects")
    | "rollRandom" =>
      return .rollRandom (← fs.required "bind") (← fs.required "min") (← fs.required "max")
        (← fs.requiredBy (listBy (read n)) "effects")
    | "removeByPriority" =>
      return .removeByPriority (← fs.required "budget") (← fs.required "groups")
        (← fs.withDefault "count_bind" none)
        (← fs.withDefaultBy (listBy (read n)) "effects" [])
    | "chooseOne" => return .chooseOne (← fs.required "bind") (← fs.required "options")
    | "chooseN" =>
      return .chooseN (← fs.required "bind") (← fs.required "options")
        { exactly := ← fs.withDefault "n" none
          atLeast := ← fs.withDefault "min" none
          atMost := ← fs.withDefault "max" none }
    | "grantFreeOperation" => return .grantFreeOperation (← ofJson? (.obj fs))
    | "setEligibilityOverride" =>
      return .setEligibilityOverride (← fs.required "seat") (← fs.required "eligible")
    | "pushInterruptPhase" => return .pushInterruptPhase (← fs.required "phase")
    | _ => none

instance : Coded Effect where
  toJson := write
  ofJson? j := read j.depth j

end Effect

end Tabletop
