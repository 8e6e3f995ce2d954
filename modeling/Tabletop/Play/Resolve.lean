import Tabletop.Play.Plan
import Tabletop.Play.Outcome
import Tabletop.TurnOrder.Coverage

/-!
# Resolving a move

Whether a move may be made, what it still leaves open, and what its effects come to: one and the
same check stands behind listing moves, asking for decisions and making a move.

The effects of the host and of its special activity run in one session and share one budget.  The
cost of the host comes first, then its stages; the special activity comes in before the stages,
after one of them, or at the end, and pays its own cost then.

Main definition: `Rules.resolve`.
-/

namespace Tabletop

/-- A move on its way through its stages. -/
structure Performance where
  session : Session
  warnings : List String := []
  deriving Inhabited

/-- A move that may be made, and the session in which its effects have run. -/
structure Resolution where
  session : Session
  action : Action
  executor : Seat
  special : Option (Action × Seat)
  /-- The grant that covers a free operation. -/
  grant : Option String
  warnings : List String
  deriving Inhabited

namespace Plan

/-- What stands before the paths of a special activity's effects. -/
def pathStart (p : Plan) : String := if p.special then "sa." else ""

/-- The setting in which a plan's effects run. -/
def setting (p : Plan) (r : Rules) (cause : Cause) : Setting :=
  { r.strict p.executor cause (some p.action.id) with mode := .discover }

/-- What a halt of a plan's effects means for the move. -/
def stop (p : Plan) : Halt → Stop
  | .fault fault => .fault fault
  | .pending decision => .pending { decision, special := p.special }
  | .refused name cause =>
    .refused { refusal := .wrongSelection name cause, action := p.action.id }

/-- Runs some of a plan's effects. -/
def runEffects (p : Plan) (r : Rules) (cause : Cause) (root : String) (effects : List Effect)
    (x : Performance) : Check Performance := do
  let session ←
    (x.session.run (p.setting r cause) (p.pathStart ++ root) p.bindings effects).mapError p.stop
  return { x with session }

/-- Pays the cost of a plan. -/
def pay (p : Plan) (r : Rules) (x : Performance) : Check Performance :=
  match p.payment with
  | .spend => p.runEffects r .cost "cost" p.cost x
  | other => .ok { x with warnings := x.warnings ++ other.warning?.toList }

/-- Carries out stages, the first being number `i`; after each of them something else may come. -/
def runStages (p : Plan) (r : Rules) (after : Nat → Performance → Check Performance) :
    Nat → List Stage → Performance → Check Performance
  | _, [], x => .ok x
  | i, stage :: stages, x => do
    let root := "stage[" ++ toString i ++ ":" ++ stage.name ++ "]"
    let x ← p.runEffects r .action root stage.effects x
    let x ← after i x
    p.runStages r after (i + 1) stages x

/-- Carries out a whole plan. -/
def runWhole (p : Plan) (r : Rules) (x : Performance) : Check Performance := do
  let x ← p.pay r x
  p.runStages r (fun _ x => .ok x) 0 p.stages x

end Plan

namespace Accompaniment

/-- Checks the time of a special activity against the number of its host's stages. -/
def checkTiming (c : Accompaniment Move) (stages : Nat) (host : ActionId) : Check Unit :=
  match c.timing, c.afterStage with
  | .during, some n => ensure (n.toNat < stages) (.noSuchStage (some n) stages) host
  | .during, none => refuse (.noSuchStage none stages) host
  | _, some _ => refuse .strayStage host
  | _, none => .ok ()

/-- The first rule of a pipeline that the params of the host and the special activity break. -/
def brokenRule? (c : Accompaniment Move) (host : Move) (p : Pipeline) : Option ParamRule :=
  p.paramRules.find? (fun rule =>
    !rule.relation.holds (valuesOf host rule.hostParam) (valuesOf c.special rule.specialParam))
where
  /-- The scalars that a move selects under a name. -/
  valuesOf (m : Move) (name : String) : List Scalar :=
    ((m.params.get? name).map Selection.scalars).getD []

/-- Checks whether a special activity may accompany its host. -/
def check (c : Accompaniment Move) (g : Game) (s : State) (host : Move) : Check Unit := do
  ensure c.special.compound.isNone .nestedSpecial host.action
  ensure (g.definition.action? c.special.action).isSome .noSuchAction c.special.action
  let v : View := {
    game := g, state := s, bindings := .ofParams c.special.params, actor := s.active }
  match ← dispatchPipeline c.special.action v with
  | .matched p =>
    ensure (p.mayAccompany host.action) (.mayNotAccompany c.special.action host.action) host.action
    match c.brokenRule? host p with
    | some rule => refuse (.paramsUnrelated rule) host.action
    | none => return ()
  | _ => return ()

/-- Carries out a special activity if its time is the given one. -/
def runAt (c : Accompaniment Plan) (r : Rules) (timing : Timing) (afterStage : Option Nat)
    (x : Performance) : Check Performance :=
  if c.timing = timing ∧ (timing = .during → c.afterStage.map UInt64.toNat = afterStage) then
    c.special.runWhole r x
  else .ok x

end Accompaniment

namespace Rules

/-- Checks whether a free operation is covered by a grant, which it tells, and that nothing but free
operations and passing goes on while grants are pending. -/
def checkGrant (r : Rules) (s : State) (m : Move) (a : Action) : Check (Option String) := do
  if m.free then
    match ← r.game.coverage s m a (.ofParams m.params) with
    | .ok grant => return some grant
    | .error denial => refuse (.notGranted denial) m.action
  else
    ensure (!s.order.inGrantWindow || r.definition.isPass m.action) .grantsPending m.action
    return none

/-- Plans the special activity of a move. -/
def planSpecial (r : Rules) (s : State) (host : Move) (stages : Nat) (c : Accompaniment Move) :
    Check (Accompaniment Plan) := do
  c.checkTiming stages host.action
  match r.definition.action? c.special.action with
  | none => refuse .noSuchAction c.special.action
  | some a =>
    let plan ← Plan.make r.game s c.special a host.free true
    return { special := plan, timing := c.timing, afterStage := c.afterStage }

/-- Checks the special activity of a move against its host, if the move has one. -/
def checkCompound (r : Rules) (s : State) (m : Move) : Check Unit :=
  match m.compound with
  | some c => c.check r.game s m
  | none => .ok ()

/-- Plans the special activity of a move, if the move has one. -/
def planCompound (r : Rules) (s : State) (m : Move) (stages : Nat) :
    Check (Option (Accompaniment Plan)) :=
  match m.compound with
  | some c => do return some (← r.planSpecial s m stages c)
  | none => .ok none

/-- Carries out a special activity, if there is one and its time is the given one. -/
def sideline (r : Rules) (special : Option (Accompaniment Plan)) (timing : Timing)
    (afterStage : Option Nat) (x : Performance) : Check Performance :=
  match special with
  | some c => c.runAt r timing afterStage x
  | none => .ok x

/-- Carries out a host together with its special activity. -/
def perform (r : Rules) (host : Plan) (special : Option (Accompaniment Plan)) (x : Performance) :
    Check Performance := do
  let x ← host.pay r x
  let x ← r.sideline special .before none x
  let x ← host.runStages r (fun i x => r.sideline special .during (some i) x) 0 host.stages x
  r.sideline special .after none x

/-- Resolves a move that takes an action. -/
def resolveAs (r : Rules) (s : State) (m : Move) (a : Action) : Check Resolution := do
  r.checkCompound s m
  let grant ← r.checkGrant s m a
  let host ← Plan.make r.game s m a m.free false
  let special ← r.planCompound s m host.stages.length
  let x ← r.perform host special { session := { state := s } }
  return {
    session := x.session
    action := host.action
    executor := host.executor
    special := special.map (fun c => (c.special.action, c.special.executor))
    grant
    warnings := x.warnings }

/-- Resolves a move. -/
def resolve (r : Rules) (s : State) (m : Move) : Check Resolution := do
  ensure (← r.game.outcome? s).isNone .gameOver m.action
  match r.definition.action? m.action with
  | none => refuse .noSuchAction m.action
  | some a => r.resolveAs s m a

end Rules

end Tabletop
