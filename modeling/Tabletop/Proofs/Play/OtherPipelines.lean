import Tabletop.Play.Make
import Tabletop.Proofs.Effect.OtherPipelines

/-!
# Play in a game with other pipelines

Which pipelines a definition declares shows where a pipeline is looked for: when an action is
planned, and when special activities are tried.  Everything else goes on as in a game with other
pipelines: triggers react to the same, lasting effects come and go alike, and what has been planned
is carried out alike.

Main statements: `Rules.transition_withPipelines`, `Rules.perform_withPipelines` and
`Rules.takeActions_withPipelines`.
-/

namespace Tabletop

/-- The rules of the game with other pipelines. -/
def Rules.withPipelines (r : Rules) (ps : List Pipeline) : Rules :=
  { r with game := r.game.withPipelines ps }

/-! ## Triggers -/

namespace Trigger

variable (t : Trigger) (ps : List Pipeline)

/-- Whether a trigger fires does not depend on pipelines. -/
theorem fires_withPipelines (g : Game) (e : Event) (s : State) :
    t.fires (g.withPipelines ps) e s = t.fires g e s := by
  have hholds := holdsIn_withPipelines
    { game := g, state := s, bindings := e.bindings, actor := actor e s } ps
  unfold fires
  dsimp only
  rw [← hholds, ← hholds]
  rfl

/-- A trigger fires alike whatever the pipelines are. -/
theorem fire_withPipelines (r : Rules) (depth : UInt32) (e : Event) (p : Progress) :
    t.fire (r.withPipelines ps) depth e p = t.fire r depth e p := by
  have hrun (q : Progress) := runEffects_withPipelines
    (r.strict (actor e q.state) (.trigger t.id depth) none) ps ("trigger:" ++ t.id) e.bindings
      t.effects
    q.state
  unfold fire
  dsimp only
  rw [← hrun]
  rfl

/-- A trigger reacts alike whatever the pipelines are. -/
theorem react_withPipelines (r : Rules) (depth : UInt32)
    (onward : Option (Event → Progress → Tracked Progress)) (e : Event) (p : Progress) :
    t.react (r.withPipelines ps) depth onward e p = t.react r depth onward e p := by
  unfold react
  rw [← fires_withPipelines t ps r.game]
  simp only [fire_withPipelines]
  rfl

end Trigger

namespace Rules

variable (r : Rules) (ps : List Pipeline)

/-- The outcome of a game does not depend on pipelines. -/
theorem outcome?_withPipelines (s : State) :
    (r.withPipelines ps).game.outcome? s = r.game.outcome? s :=
  r.game.outcome?_withPipelines ps (.refl s)

/-- Events are put to the triggers of a level alike, by induction on the levels that are left. -/
theorem dispatchAt_withPipelines :
    ∀ left, (r.withPipelines ps).dispatchAt left = r.dispatchAt left
  | 0 => by
    funext e p
    simp only [dispatchAt, Trigger.react_withPipelines]
    rfl
  | left + 1 => by
    funext e p
    simp only [dispatchAt, Trigger.react_withPipelines, dispatchAt_withPipelines left]
    rfl

/-- Events are put to the triggers alike whatever the pipelines are. -/
theorem dispatch_withPipelines (events : List Event) (p : Progress) :
    (r.withPipelines ps).dispatch events p = r.dispatch events p := by
  unfold dispatch
  rw [dispatchAt_withPipelines]
  rfl

/-! ## Lasting effects and boundaries -/

/-- Lasting effects are set up alike whatever the pipelines are. -/
theorem activateLasting_withPipelines (a : Action) (executor : Seat) (b : Bindings) :
    ∀ ls p, (r.withPipelines ps).activateLasting a executor b ls p =
      r.activateLasting a executor b ls p
  | [], _ => rfl
  | l :: ls, p => by
    have hrun := runEffects_withPipelines (r.strict executor (.lastingSetup l.id) (some a.id)) ps
      ("lasting:" ++ l.id ++ "/setup") b l.setup p.state
    simp only [activateLasting, activateLasting_withPipelines a executor b ls]
    rw [← hrun]
    rfl

/-- Lasting effects are torn down alike whatever the pipelines are. -/
theorem tearDown_withPipelines : ∀ ls p, (r.withPipelines ps).tearDown ls p = r.tearDown ls p
  | [], _ => rfl
  | l :: ls, p => by
    have hrun (declared : LastingEffect) := runEffects_withPipelines
      (r.strict l.executor (.lastingTeardown l.id) (some l.action)) ps
      ("lasting:" ++ l.id ++ "/teardown") ∅ declared.teardown p.state
    simp only [tearDown, dispatch_withPipelines, tearDown_withPipelines ls]
    simp only [← hrun]
    rfl

/-- Lasting effects expire alike whatever the pipelines are. -/
theorem expire_withPipelines (d : Duration) (p : Progress) :
    (r.withPipelines ps).expire d p = r.expire d p :=
  r.tearDown_withPipelines ps _ _

/-- A phase is left alike whatever the pipelines are. -/
theorem leavePhase_withPipelines (p : Progress) :
    (r.withPipelines ps).leavePhase p = r.leavePhase p := by
  simp only [leavePhase, dispatch_withPipelines, expire_withPipelines]

/-- A turn is closed alike whatever the pipelines are. -/
theorem closeTurn_withPipelines (p : Progress) :
    (r.withPipelines ps).closeTurn p = r.closeTurn p := by
  simp only [closeTurn, dispatch_withPipelines, expire_withPipelines]
  rfl

/-- A turn ends alike whatever the pipelines are. -/
theorem endTurn_withPipelines (p : Progress) : (r.withPipelines ps).endTurn p = r.endTurn p := by
  simp only [endTurn, leavePhase_withPipelines, closeTurn_withPipelines]

/-- A transition goes on alike. -/
theorem transition_withPipelines (p : Progress) :
    (r.withPipelines ps).transition p = r.transition p := by
  simp only [transition, resume, skipSeat, nextPhase, enterPhase, leavePhase_withPipelines,
    closeTurn_withPipelines, endTurn_withPipelines, dispatch_withPipelines]
  rfl

/-! ## Taking actions -/

/-- An action that has been resolved is taken alike whatever the pipelines are. -/
theorem take_withPipelines (a : Action) (executor : Seat) (params : Dict Selection) (p : Progress) :
    (r.withPipelines ps).take a executor params p = r.take a executor params p := by
  simp only [take, activateLasting_withPipelines]

/-- The actions of a resolved move are taken alike. -/
theorem takeActions_withPipelines (m : Move) (x : Resolution) :
    (r.withPipelines ps).takeActions m x = r.takeActions m x := by
  simp only [takeActions, takeSpecial, take_withPipelines]

/-- Triggers react to a move that has been resolved alike whatever the pipelines are. -/
theorem reactTo_withPipelines (x : Resolution) (mover : Seat) (events : List Event) (p : Progress) :
    (r.withPipelines ps).reactTo x mover events p = r.reactTo x mover events p := by
  simp only [reactTo, dispatch_withPipelines]

end Rules

/-! ## Plans -/

namespace Pipeline

variable (v : View) (ps : List Pipeline)

/-- Whether a pipeline applies does not depend on the others. -/
theorem applies_withPipelines (p : Pipeline) : p.applies (v.withPipelines ps) = p.applies v := by
  simp only [applies, holdsIn_withPipelines]
  rfl

/-- Of given pipelines the same one applies first. -/
theorem firstApplying?_withPipelines :
    ∀ candidates, firstApplying? (v.withPipelines ps) candidates = firstApplying? v candidates
  | [] => rfl
  | p :: candidates => by
    simp only [firstApplying?, applies_withPipelines, firstApplying?_withPipelines candidates]

/-- The payment of a pipeline does not depend on the others. -/
theorem payment_withPipelines (p : Pipeline) (free : Bool) :
    p.payment free (v.withPipelines ps) = p.payment free v := by
  simp only [payment, holdsIn_withPipelines]

end Pipeline

namespace Plan

variable (v : View) (ps : List Pipeline)

/-- The domain of a param does not depend on pipelines. -/
theorem domain_withPipelines (p : Param) : domain p (v.withPipelines ps) = domain p v := by
  rw [domain, domain, p.domain.eval_withPipelines]

/-- The param that a selector reads is checked alike whatever the pipelines are. -/
theorem checkSelected_withPipelines (a : Action) (m : Move) (special : Bool) (sel : SeatSelector) :
    checkSelected a m special (v.withPipelines ps) sel = checkSelected a m special v sel := by
  cases sel with
  | binding name =>
    simp only [checkSelected, domain_withPipelines]
    rfl
  | _ => rfl

/-- Declared params are checked alike whatever the pipelines are. -/
theorem checkParams_withPipelines (a : Action) (m : Move) (special : Bool) :
    ∀ params, checkParams a m special (v.withPipelines ps) params = checkParams a m special v params
  | [] => rfl
  | p :: params => by
    simp only [checkParams, domain_withPipelines, checkParams_withPipelines a m special params]

/-- Actors and executor are found alike whatever the pipelines are. -/
theorem checkSeats_withPipelines (a : Action) (m : Move) (special : Bool) :
    checkSeats a m special (v.withPipelines ps) = checkSeats a m special v := by
  simp only [checkSeats, checkSelected_withPipelines]
  rfl

/-! ### Carrying out plans -/

variable (p : Plan) (r : Rules)

/-- The effects of a plan come to the same whatever the pipelines are. -/
theorem runEffects_withPipelines (cause : Cause) (root : String) (effects : List Effect)
    (x : Performance) :
    p.runEffects (r.withPipelines ps) cause root effects x =
      p.runEffects r cause root effects x := by
  have hrun :=
    Session.run_withPipelines (p.setting r cause) ps (p.pathStart ++ root) p.bindings effects
    x.session
  unfold runEffects
  rw [← hrun]
  rfl

/-- Paying for a plan comes to the same whatever the pipelines are. -/
theorem pay_withPipelines (x : Performance) : p.pay (r.withPipelines ps) x = p.pay r x := by
  simp only [pay, runEffects_withPipelines]

/-- The stages of a plan come to the same whatever the pipelines are. -/
theorem runStages_withPipelines (after : Nat → Performance → Check Performance) :
    ∀ stages i x, p.runStages (r.withPipelines ps) after i stages x = p.runStages r after i stages x
  | [], _, _ => rfl
  | stage :: stages, i, x => by
    simp only [runStages, runEffects_withPipelines, runStages_withPipelines after stages]

/-- Carrying out a special activity comes to the same whatever the pipelines are. -/
theorem runWhole_withPipelines (x : Performance) :
    p.runWhole (r.withPipelines ps) x = p.runWhole r x := by
  simp only [runWhole, pay_withPipelines, runStages_withPipelines]

end Plan

namespace Rules

variable (r : Rules) (ps : List Pipeline)

/-- A special activity at a place of its host comes to the same whatever the pipelines are. -/
theorem sideline_withPipelines (special : Option (Accompaniment Plan)) (timing : Timing)
    (afterStage : Option Nat) :
    (r.withPipelines ps).sideline special timing afterStage =
      r.sideline special timing afterStage := by
  funext x
  cases special with
  | none => rfl
  | some c => simp only [sideline, Accompaniment.runAt, Plan.runWhole_withPipelines]

/-- A host and its special activity are carried out alike. -/
theorem perform_withPipelines (host : Plan) (special : Option (Accompaniment Plan))
    (x : Performance) :
    (r.withPipelines ps).perform host special x = r.perform host special x := by
  simp only [perform, Plan.pay_withPipelines, Plan.runStages_withPipelines, sideline_withPipelines]

/-! ## Grants -/

/-- The first grant whose condition holds does not depend on pipelines. -/
theorem firstHolding?_withPipelines (v : View) :
    ∀ grants, Grant.firstHolding? (v.withPipelines ps) grants = Grant.firstHolding? v grants
  | [] => rfl
  | g :: grants => by
    simp only [Grant.firstHolding?, Cond.eval_withPipelines, firstHolding?_withPipelines v grants]

/-- The check of a grant does not depend on pipelines. -/
theorem checkGrant_withPipelines (s : State) (m : Move) (a : Action) :
    (r.withPipelines ps).checkGrant s m a = r.checkGrant s m a := by
  have hcovers : (r.game.withPipelines ps).coverage s m a (.ofParams m.params) =
      r.game.coverage s m a (.ofParams m.params) := by
    unfold Game.coverage
    simp only [← firstHolding?_withPipelines ps
      { game := r.game, state := s, bindings := _, actor := _ }]
    rfl
  unfold checkGrant
  rw [← hcovers]
  rfl

end Rules

end Tabletop
