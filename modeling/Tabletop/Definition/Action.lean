import Tabletop.Effect.Form

/-!
# Actions

An action says who may take it, when, with which params, at what cost and to what effect.  A
pipeline replaces the cost and the effects of an action where it applies: its own cost, checked
beforehand, and stages between which a special activity may be carried out.

Main definitions: `Action`, `Pipeline` and `SeatSelector`.
-/

namespace Tabletop

open Json

/-- Says which seats may take an action, or for which seat its effects run. -/
inductive SeatSelector where
  /-- The seat whose turn it is. -/
  | active
  | any
  /-- Every seat but the active one. -/
  | allOther
  | id (seat : Seat)
  | ids (seats : List Seat)
  /-- The seat index, or the seat indices, that a param holds. -/
  | binding (name : String)
  deriving DecidableEq, Repr, Inhabited

/-- The selector as shown to a reader. -/
def SeatSelector.text : SeatSelector → String
  | active => "active"
  | any => "any"
  | allOther => "allOther"
  | id seat => seat.text
  | ids seats => "[" ++ ",".intercalate (seats.map Seat.text) ++ "]"
  | binding name => name

instance : Coded SeatSelector where
  toJson
    | .active => .str "active"
    | .any => .str "any"
    | .allOther => .str "allOther"
    | .id seat => .variant "id" (toJson seat)
    | .ids seats => .variant "ids" (toJson seats)
    | .binding name => .variant "binding" (toJson name)
  ofJson? j :=
    match j.variant? with
    | some ("active", none) => some .active
    | some ("any", none) => some .any
    | some ("allOther", none) => some .allOther
    | some ("id", some x) => (ofJson? x).map SeatSelector.id
    | some ("ids", some x) => (ofJson? x).map SeatSelector.ids
    | some ("binding", some x) => (ofJson? x).map SeatSelector.binding
    | _ => none

/-- A param of an action and the values it may take. -/
structure Param where
  name : String
  domain : Query
  deriving Inhabited

instance : Coded Param where
  toJson p := .obj [("name", toJson p.name), ("domain", toJson p.domain)]
  ofJson? j := do
    let fs ← j.fields?
    return { name := ← fs.required "name", domain := ← fs.required "domain" }

/-- The span over which uses of an action are counted. -/
inductive UsageScope where
  | turn
  | phase
  | game
  deriving DecidableEq, Repr, Inhabited

/-- The scope's name in a sentence. -/
def UsageScope.text : UsageScope → String
  | turn => "Turn"
  | phase => "Phase"
  | game => "Game"

instance : Coded UsageScope where
  toJson
    | .turn => .str "turn"
    | .phase => .str "phase"
    | .game => .str "game"
  ofJson?
    | .str "turn" => some .turn
    | .str "phase" => some .phase
    | .str "game" => some .game
    | _ => none

/-- How often an action may be taken. -/
structure UsageLimit where
  scope : UsageScope
  max : UInt32
  deriving DecidableEq, Repr, Inhabited

instance : Coded UsageLimit where
  toJson l := .obj [("scope", toJson l.scope), ("max", toJson l.max)]
  ofJson? j := do
    let fs ← j.fields?
    return { scope := ← fs.required "scope", max := ← fs.required "max" }

/-- How long a lasting effect lasts. -/
inductive Duration where
  | turn
  | phase
  deriving DecidableEq, Repr, Inhabited

instance : Coded Duration where
  toJson
    | .turn => .str "turn"
    | .phase => .str "phase"
  ofJson?
    | .str "turn" => some .turn
    | .str "phase" => some .phase
    | _ => none

/-- What happens when an action has been taken, and what undoes it when its time is over. -/
structure LastingEffect where
  id : String
  duration : Duration
  setup : List Effect := []
  teardown : List Effect := []
  deriving Inhabited

instance : Coded LastingEffect where
  toJson l := .obj
    [("id", toJson l.id), ("duration", toJson l.duration), ("setup", toJson l.setup),
      ("teardown", toJson l.teardown)]
  ofJson? j := do
    let fs ← j.fields?
    return {
      id := ← fs.required "id"
      duration := ← fs.required "duration"
      setup := ← fs.withDefault "setup" []
      teardown := ← fs.withDefault "teardown" [] }

/-- Something that a seat can do. -/
structure Action where
  id : ActionId
  /-- The seats that may take it; the active seat must be one of them. -/
  actor : SeatSelector := .active
  /-- The one seat for which its effects run. -/
  executor : SeatSelector := .active
  /-- The phases in which it may be taken; none listed allows all. -/
  phases : List PhaseId := []
  operationClass : Option String := none
  params : List Param := []
  pre : Option Cond := none
  cost : List Effect := []
  effects : List Effect := []
  limits : List UsageLimit := []
  lasting : List LastingEffect := []
  deriving Inhabited

namespace Action

/-- An action of the active seat that does nothing. -/
def named (id : ActionId) : Action := { id }

/-- The action with one more param. -/
def addParam (a : Action) (name : String) (domain : Query) : Action :=
  { a with params := a.params ++ [{ name, domain }] }

/-- The action with one more limit. -/
def addLimit (a : Action) (scope : UsageScope) (max : UInt32) : Action :=
  { a with limits := a.limits ++ [{ scope, max }] }

/-- The action with one more lasting effect. -/
def addLasting (a : Action) (l : LastingEffect) : Action :=
  { a with lasting := a.lasting ++ [l] }

/-- Whether the action may be taken in a phase. -/
def allowedIn (a : Action) (phase : PhaseId) : Bool :=
  a.phases.isEmpty || a.phases.contains phase

/-- The declared param of a name. -/
def param? (a : Action) (name : String) : Option Param := a.params.find? (·.name == name)

end Action

instance : Coded Action where
  toJson a := .obj
    [("id", toJson a.id), ("actor", toJson a.actor), ("executor", toJson a.executor),
      ("phases", toJson a.phases), ("action_class", toJson a.operationClass),
      ("params", toJson a.params),
      ("pre", toJson a.pre), ("cost", toJson a.cost), ("effects", toJson a.effects),
      ("limits", toJson a.limits), ("lasting_effects", toJson a.lasting)]
  ofJson? j := do
    let fs ← j.fields?
    return {
      id := ← fs.required "id"
      actor := ← fs.withDefault "actor" .active
      executor := ← fs.withDefault "executor" .active
      phases := ← fs.withDefault "phases" []
      operationClass := ← fs.withDefault "action_class" none
      params := ← fs.withDefault "params" []
      pre := ← fs.withDefault "pre" none
      cost := ← fs.withDefault "cost" []
      effects := ← fs.withDefault "effects" []
      limits := ← fs.withDefault "limits" []
      lasting := ← fs.withDefault "lasting_effects" [] }

/-! ## Pipelines -/

/-- What a failed cost check means. -/
inductive CostRule where
  /-- The move is illegal. -/
  | atomic
  /-- The move goes on without paying. -/
  | lenient
  deriving DecidableEq, Repr, Inhabited

instance : Coded CostRule where
  toJson
    | .atomic => .str "atomic"
    | .lenient => .str "partial"
  ofJson?
    | .str "atomic" => some .atomic
    | .str "partial" => some .lenient
    | _ => none

/-- A named stage of a pipeline. -/
structure Stage where
  name : String
  effects : List Effect := []
  deriving Inhabited

instance : Coded Stage where
  toJson s := .obj [("name", toJson s.name), ("effects", toJson s.effects)]
  ofJson? j := do
    let fs ← j.fields?
    return { name := ← fs.required "name", effects := ← fs.withDefault "effects" [] }

/-- How a param of a special activity relates to a param of its host. -/
inductive ParamRelation where
  /-- They share no value. -/
  | disjoint
  /-- Every value of the special activity is one of the host's. -/
  | subset
  deriving DecidableEq, Repr, Inhabited

/-- The relation's name in a sentence. -/
def ParamRelation.text : ParamRelation → String
  | disjoint => "Disjoint"
  | subset => "Subset"

instance : Coded ParamRelation where
  toJson
    | .disjoint => .str "disjoint"
    | .subset => .str "subset"
  ofJson?
    | .str "disjoint" => some .disjoint
    | .str "subset" => some .subset
    | _ => none

/-- A rule that ties a param of a special activity to one of its host. -/
structure ParamRule where
  relation : ParamRelation
  hostParam : String
  specialParam : String
  deriving DecidableEq, Repr, Inhabited

/-- Whether the values of the host's and of the special activity's param are related as asked. -/
def ParamRelation.holds (r : ParamRelation) (host special : List Scalar) : Bool :=
  match r with
  | .disjoint => special.all (fun x => !host.contains x)
  | .subset => special.all (fun x => host.contains x)

instance : Coded ParamRule where
  toJson r := .obj
    [("relation", toJson r.relation), ("operation_param", toJson r.hostParam),
      ("special_activity_param", toJson r.specialParam)]
  ofJson? j := do
    let fs ← j.fields?
    return {
      relation := ← fs.required "relation"
      hostParam := ← fs.required "operation_param"
      specialParam := ← fs.required "special_activity_param" }

/-- Replaces the cost and the effects of an action where it applies. -/
structure Pipeline where
  id : PipelineId
  action : ActionId
  applicability : Option Cond := none
  legality : Option Cond := none
  costCheck : Option Cond := none
  cost : List Effect := []
  /-- The stages; without any, the effects of the action are the one stage. -/
  stages : List Stage := []
  costRule : CostRule := .atomic
  /-- The hosts that the action may accompany as a special activity; `none` allows any. -/
  accompanies : Option (List ActionId) := none
  paramRules : List ParamRule := []
  /-- If any are listed, the pipeline applies only while one of these lasting effects is active. -/
  linkedWindows : List String := []
  deriving Inhabited

namespace Pipeline

/-- A pipeline that always applies, costs nothing and has no stages. -/
def named (id : PipelineId) (action : ActionId) : Pipeline := { id, action }

/-- The pipeline with one more stage. -/
def addStage (p : Pipeline) (name : String) (effects : List Effect) : Pipeline :=
  { p with stages := p.stages ++ [{ name, effects }] }

/-- The pipeline with one more rule on params. -/
def addParamRule (p : Pipeline) (relation : ParamRelation) (hostParam specialParam : String) :
    Pipeline :=
  { p with paramRules := p.paramRules ++ [{ relation, hostParam, specialParam }] }

/-- The pipeline linked to one more lasting effect. -/
def addLinkedWindow (p : Pipeline) (lasting : String) : Pipeline :=
  { p with linkedWindows := p.linkedWindows ++ [lasting] }

end Pipeline

instance : Coded Pipeline where
  toJson p := .obj
    [("id", toJson p.id), ("action_id", toJson p.action),
      ("applicability", toJson p.applicability), ("legality", toJson p.legality),
      ("cost_validation", toJson p.costCheck), ("cost_effects", toJson p.cost),
      ("stages", toJson p.stages), ("atomicity", toJson p.costRule),
      ("accompanying_ops", toJson p.accompanies),
      ("compound_param_constraints", toJson p.paramRules),
      ("linked_windows", toJson p.linkedWindows)]
  ofJson? j := do
    let fs ← j.fields?
    return {
      id := ← fs.required "id"
      action := ← fs.required "action_id"
      applicability := ← fs.withDefault "applicability" none
      legality := ← fs.withDefault "legality" none
      costCheck := ← fs.withDefault "cost_validation" none
      cost := ← fs.withDefault "cost_effects" []
      stages := ← fs.withDefault "stages" []
      costRule := ← fs.withDefault "atomicity" .atomic
      accompanies := ← fs.withDefault "accompanying_ops" none
      paramRules := ← fs.withDefault "compound_param_constraints" []
      linkedWindows := ← fs.withDefault "linked_windows" [] }

end Tabletop
