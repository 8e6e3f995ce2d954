import Tabletop.Play.Resolve
import Tabletop.Proofs.Paired.Outcome
import Tabletop.Proofs.Paired.Plan

/-!
# Resolving a move, side by side

A move with more selections than another, in the same state but for the fingerprint, under at least
the same limits, is resolved alike, up to the first selection that the other lacks.

Main statement: `Rules.resolve_paired`.
-/

namespace Tabletop

namespace Widening

variable (w : Widening)

/-- The second performance is where the first is. -/
structure Performs (x x' : Performance) : Prop where
  session : w.InStep x.session x'.session
  warnings : x'.warnings = x.warnings

/-- The second resolution has come to the same. -/
structure Resolves (x x' : Resolution) : Prop where
  session : w.InStep x.session x'.session
  action : x'.action = x.action
  executor : x'.executor = x.executor
  special : x'.special = x.special
  grant : x'.grant = x.grant
  warnings : x'.warnings = x.warnings

end Widening

/-! ## Grants and special activities -/

section

variable {w : Widening} {m m' : Move}

/-- The first grant whose condition holds stays the same when names come in below. -/
theorem Grant.firstHolding?_stays {v : View} {b' : Bindings} (h : w.Below v.bindings b') :
    ∀ gs, Stays (firstHolding? v gs) (firstHolding? (w.view v b') gs)
  | [] => .refl _
  | g :: gs => by
    rw [firstHolding?, firstHolding?]
    cases g.zoneFilter with
    | none => exact .refl _
    | some filter =>
      refine Stays.bind (.inPredicate _ (filter.eval_stays h)) (fun _ => ?_)
      exact .ite (fun _ => .refl _) (fun _ => firstHolding?_stays h gs)

/-- A free operation is covered by the same grant when names come in below. -/
theorem Game.coverage_stays (g : Game) (s : State) (m : Move) (a : Action) {b b' : Bindings}
    (h : w.Below b b') : Stays (g.coverage s m a b) (g.coverage (w.state s) m a b') := by
  unfold coverage
  rw [Widening.state_order]
  cases s.order.card? with
  | none => exact .refl _
  | some card =>
    dsimp only [Widening.state_active]
    cases card.candidates s.active m.action (m.classOverride.or a.operationClass) with
    | error denial => exact .refl _
    | ok grants =>
      exact (Grant.firstHolding?_stays (v := ⟨g, s, b, s.active⟩) h grants).bind (fun _ => .refl _)

/-- Without additional names, a move is widened to itself. -/
theorem Widening.moves_self (hw : w.params = ∅) (m : Move) : w.Moves m m where
  eq := by cases m; rfl
  below := Widening.below_self hw _
  plain := .inr ⟨hw, rfl⟩

/-- What a move says besides its selections. -/
theorem Widening.Moves.same (h : w.Moves m m') :
    m'.action = m.action ∧ m'.free = m.free ∧ m'.classOverride = m.classOverride ∧
      m'.compound = m.compound := by
  rw [h.eq]
  exact ⟨rfl, rfl, rfl, rfl⟩

/-- The check of a grant comes out alike for a move with more selections. -/
theorem Rules.checkGrant_paired (r : Rules) (s : State) (a : Action) (h : w.Moves m m')
    (takes : Decision → Value → Prop) :
    Paired (Stop.sense w takes) Eq (r.checkGrant s m a)
      ((w.rules r).checkGrant (w.state s) m' a) := by
  have hbelow := h.below
  rw [h.eq] at hbelow ⊢
  refine .ite (fun _ => ?_) (fun _ => ?_)
  · refine Paired.bind (r.game.coverage_stays s m a hbelow).check ?_
    rintro covered _ rfl
    cases covered with
    | error denial => exact .refl _
    | ok grant => exact .refl _
  · exact .refl _

/-- A special activity is checked alike beside a host with more selections. -/
theorem Accompaniment.check_paired (c : Accompaniment Move) (g : Game) (s : State) (host : Move)
    (hw : w.params = ∅) (takes : Decision → Value → Prop) :
    Paired (Stop.sense w takes) Eq (c.check g s host) (c.check g (w.state s) host) := by
  refine Paired.bind (.refl _) ?_
  rintro _ _ -
  refine Paired.bind (.refl _) ?_
  rintro _ _ -
  refine Paired.bind (dispatchPipeline_stays (v := ⟨g, s, .ofParams c.special.params, s.active⟩)
    c.special.action (Widening.below_self hw _)).check ?_
  rintro dispatch _ rfl
  exact .refl _

/-- The second special activity is the first with more names in scope. -/
def Widening.Accompanies (w : Widening) (c c' : Accompaniment Plan) : Prop :=
  ∃ special, c' = { c with special } ∧ w.Plans c.special special

/-- A special activity is planned alike beside a host with more selections. -/
theorem Rules.planSpecial_paired (r : Rules) (s : State) (host : Move) (stages : Nat)
    (c : Accompaniment Move) (hw : w.params = ∅) :
    Paired (Stop.sense w Decision.Takes) w.Accompanies (r.planSpecial s host stages c)
      ((w.rules r).planSpecial (w.state s) host stages c) := by
  refine Paired.bind (.refl _) ?_
  rintro _ _ -
  rw [Widening.rules_definition]
  cases r.definition.action? c.special.action with
  | none => exact refuse_paired _ _
  | some a =>
    refine (Plan.make_paired r.game s a host.free (Widening.below_self hw _) (fun _ => hw)).bind ?_
    intro plan plan' hplan
    exact .pure ⟨plan', rfl, hplan⟩

end

/-! ## Stages -/

namespace Plan

variable {w : Widening} {p p' : Plan} {x x' : Performance}

/-- Effects of a plan keep performances in step, up to a decision that is settled below. -/
theorem runEffects_paired (r : Rules) (cause : Cause) (root : String) (effects : List Effect)
    (hp : w.Plans p p') (hx : w.Performs x x') :
    Paired (Stop.sense w Decision.Takes) w.Performs (p.runEffects r cause root effects x)
      (p'.runEffects (w.rules r) cause root effects x') := by
  obtain ⟨b', rfl, hb, hs⟩ := hp
  have hrun := Session.run_paired (p.setting r cause) (p.pathStart ++ root) effects hb hx.session
  refine (hrun.mapError ?_).bind (fun y y' hy => .pure ⟨hy, hx.warnings⟩)
  intro halt hhalt
  cases halt with
  | fault fault => trivial
  | refused name cause => exact hhalt ▸ rfl
  | pending d =>
    have hsettles := w.settles?_eq (q := ⟨d, p.special⟩) hs
    have hmissing : Missing _ (w.params.get? d.name) d.Takes
      (x'.session.run (w.setting (p.setting r cause)) (p.pathStart ++ root) b' effects) := hhalt
    refine Missing.mk (fun hnone => ?_) (fun x hx y hy => ?_)
    · rw [hsettles] at hnone
      exact hmissing.none hnone ▸ rfl
    · rw [hsettles] at hx
      cases hz : x'.session.run (w.setting (p.setting r cause)) (p.pathStart ++ root) b'
        effects with
      | error e =>
        rw [hz] at hy
        cases hy
      | ok z => exact hmissing.some x hx z hz

/-- Paying the cost of a plan keeps performances in step, up to a decision that is settled below. -/
theorem pay_paired (r : Rules) (hp : w.Plans p p') (hx : w.Performs x x') :
    Paired (Stop.sense w Decision.Takes) w.Performs (p.pay r x) (p'.pay (w.rules r) x') := by
  have heffects := runEffects_paired r .cost "cost" p.cost hp hx
  obtain ⟨b', rfl, -, -⟩ := hp
  unfold pay
  cases p.payment with
  | spend => exact heffects
  | skip pipeline => exact .ok ⟨hx.session, congrArg (· ++ _) hx.warnings⟩
  | free => exact .ok ⟨hx.session, congrArg (· ++ _) hx.warnings⟩

/-- Running the stages of a plan keeps performances in step, if what comes after each stage does. -/
theorem runStages_paired (r : Rules) {after after' : Nat → Performance → Check Performance}
    (hp : w.Plans p p')
    (hafter : ∀ i x x', w.Performs x x' →
      Paired (Stop.sense w Decision.Takes) w.Performs (after i x) (after' i x')) :
    ∀ (stages : List Stage) (i : Nat) {x x' : Performance}, w.Performs x x' →
      Paired (Stop.sense w Decision.Takes) w.Performs (p.runStages r after i stages x)
        (p'.runStages (w.rules r) after' i stages x')
  | [], _, _, _, hx => .ok hx
  | stage :: stages, i, _, _, hx => by
    refine (runEffects_paired r _ _ _ hp hx).bind (fun y y' hy => ?_)
    refine (hafter i y y' hy).bind (fun z z' hz => ?_)
    exact runStages_paired r hp hafter stages (i + 1) hz

/-- Running a special activity as a whole keeps performances in step. -/
theorem runWhole_paired (r : Rules) (hp : w.Plans p p') (hx : w.Performs x x') :
    Paired (Stop.sense w Decision.Takes) w.Performs (p.runWhole r x)
      (p'.runWhole (w.rules r) x') := by
  have hstages := fun y y' (hy : w.Performs y y') =>
    runStages_paired r hp (fun _ _ _ h => .ok h) p.stages 0 hy
  have hpay := pay_paired r hp hx
  obtain ⟨b', rfl, -, -⟩ := hp
  exact hpay.bind hstages

end Plan

section

variable {w : Widening} {m m' : Move} {x x' : Performance}

/-- A special activity that is due at a place keeps performances in step, and so does one that is
not. -/
theorem Accompaniment.runAt_paired (r : Rules) {c c' : Accompaniment Plan}
    (hc : w.Accompanies c c') (timing : Timing) (afterStage : Option Nat) (hx : w.Performs x x') :
    Paired (Stop.sense w Decision.Takes) w.Performs (c.runAt r timing afterStage x)
      (c'.runAt (w.rules r) timing afterStage x') := by
  obtain ⟨special, rfl, hspecial⟩ := hc
  exact .ite (fun _ => Plan.runWhole_paired r hspecial hx) (fun _ => .ok hx)

/-- The second special activity is the first with more names in scope, if there is one. -/
def Widening.MayAccompany (w : Widening) :
    Option (Accompaniment Plan) → Option (Accompaniment Plan) → Prop
  | none, c' => c' = none
  | some c, c' => ∃ d, c' = some d ∧ w.Accompanies c d

/-- The second special activity is the same action for the same executor. -/
theorem Widening.MayAccompany.special_eq {c c' : Option (Accompaniment Plan)}
    (h : w.MayAccompany c c') :
    c'.map (fun c => (c.special.action, c.special.executor)) =
      c.map (fun c => (c.special.action, c.special.executor)) := by
  cases c with
  | none => exact h ▸ rfl
  | some c =>
    obtain ⟨-, rfl, -, rfl, -, rfl, -, -⟩ := h
    rfl

/-- The special activity at a place of the host keeps performances in step, if there is one. -/
theorem Rules.sideline_paired (r : Rules) {special special' : Option (Accompaniment Plan)}
    (hspecial : w.MayAccompany special special') (timing : Timing) (afterStage : Option Nat)
    (hx : w.Performs x x') :
    Paired (Stop.sense w Decision.Takes) w.Performs (r.sideline special timing afterStage x)
      ((w.rules r).sideline special' timing afterStage x') := by
  cases special with
  | none =>
    cases hspecial
    exact .ok hx
  | some c =>
    obtain ⟨d, rfl, hd⟩ := hspecial
    exact Accompaniment.runAt_paired r hd timing afterStage hx

/-- Carrying out a move keeps performances in step, up to a decision that is settled below. -/
theorem Rules.perform_paired (r : Rules) {host host' : Plan}
    {special special' : Option (Accompaniment Plan)} (hhost : w.Plans host host')
    (hspecial : w.MayAccompany special special') (hx : w.Performs x x') :
    Paired (Stop.sense w Decision.Takes) w.Performs (r.perform host special x)
      ((w.rules r).perform host' special' x') := by
  have hsideline := fun timing afterStage y y' (hy : w.Performs y y') =>
    r.sideline_paired hspecial timing afterStage hy
  have hstages := fun y y' (hy : w.Performs y y') =>
    Plan.runStages_paired r hhost (fun i => hsideline .during (some i)) host.stages 0 hy
  have hpay := Plan.pay_paired r hhost hx
  obtain ⟨b', rfl, -, -⟩ := hhost
  refine hpay.bind (fun y y' hy => ?_)
  refine (hsideline .before none y y' hy).bind (fun y y' hy => ?_)
  exact (hstages y y' hy).bind (hsideline .after none)

/-! ## The whole move -/

/-- The check of a compound comes out alike for a move with more selections. -/
theorem Rules.checkCompound_paired (r : Rules) (s : State) (h : w.Moves m m')
    (takes : Decision → Value → Prop) :
    Paired (Stop.sense w takes) Eq (r.checkCompound s m)
      ((w.rules r).checkCompound (w.state s) m') := by
  unfold checkCompound
  rcases h.plain with hnone | ⟨hw, rfl⟩
  · have hnone' : m'.compound = none := h.same.2.2.2.trans hnone
    rw [hnone, hnone']
    exact .refl _
  · cases m'.compound with
    | none => exact .refl _
    | some c => exact c.check_paired r.game s m' hw takes

/-- The special activity of a move is planned alike for a move with more selections. -/
theorem Rules.planCompound_paired (r : Rules) (s : State) (h : w.Moves m m') (stages : Nat) :
    Paired (Stop.sense w Decision.Takes) w.MayAccompany (r.planCompound s m stages)
      ((w.rules r).planCompound (w.state s) m' stages) := by
  unfold planCompound
  rcases h.plain with hnone | ⟨hw, rfl⟩
  · have hnone' : m'.compound = none := h.same.2.2.2.trans hnone
    rw [hnone, hnone']
    exact .ok rfl
  · cases m'.compound with
    | none => exact .ok rfl
    | some c =>
      exact (r.planSpecial_paired s m' stages c hw).bind (fun _ d hd => .pure ⟨d, rfl, hd⟩)

/-- A move with more selections comes to the same, up to the first selection that it has and the
other lacks. -/
theorem Rules.resolve_paired (r : Rules) (s : State) (h : w.Moves m m') :
    Paired (Stop.sense w Decision.Takes) w.Resolves (r.resolve s m)
      ((w.rules r).resolve (w.state s) m') := by
  obtain ⟨haction, hfree, -, -⟩ := h.same
  unfold Rules.resolve
  rw [haction]
  refine Paired.bind (r.game.outcome?_stays w s).check ?_
  rintro outcome _ rfl
  refine Paired.bind (.refl _) ?_
  rintro _ _ -
  rw [Widening.rules_definition]
  cases r.definition.action? m.action with
  | none => exact refuse_paired _ _
  | some a =>
    refine (r.checkCompound_paired s h _).bind ?_
    rintro _ _ -
    refine (r.checkGrant_paired s a h _).bind ?_
    rintro grant _ rfl
    rw [hfree]
    refine (Plan.make_paired r.game s a m.free h.below (fun hs => absurd hs (by simp))).bind ?_
    intro host host' hhost
    have hstages : host'.stages = host.stages := by
      obtain ⟨_, rfl, -, -⟩ := hhost
      rfl
    rw [hstages]
    refine (r.planCompound_paired s h _).bind ?_
    intro special special' hspecial
    have hstart : w.Performs { session := { state := s } } { session := { state := w.state s } } :=
      ⟨⟨[], rfl, fun _ => rfl⟩, rfl⟩
    refine (r.perform_paired hhost hspecial hstart).bind ?_
    intro x x' hx
    obtain ⟨_, rfl, -, -⟩ := hhost
    exact .pure ⟨hx.session, rfl, rfl, hspecial.special_eq, rfl, hx.warnings⟩

end

end Tabletop
