import Tabletop.Proofs.Play.Undecided

/-!
# A host and its special activity

A special activity is checked against its host before anything is planned: the pipeline that carries
it out says which hosts it may accompany, and how its params have to be related to theirs.  But
which one that is gets asked twice, by the check for the active seat and by the plan for the seat
that carries the special activity out.  Where conditions read the actor and these are two seats, the
answers can differ, and then it is the rules of another pipeline that have been checked.

Main statements: `Rules.exists_carriesOut` and `Rules.CarriesOut.special_runs`, by which a resolved
move carries out its special activity as a whole; `Rules.disobeys_iff`, with a convoy that disobeys.
-/

namespace Tabletop

open Relation (ReflTransGen)

/-! ## Carrying out a special activity -/

/-- On the way from one session to another a plan is carried out as a whole: its cost is paid and
all of its stages take place. -/
def Plan.RunsBetween (p : Plan) (r : Rules) (x y : Session) : Prop :=
  ∃ z z', r.Runs x z.session ∧ p.runWhole r z = .ok z' ∧ r.Runs z'.session y

namespace Rules

variable {r : Rules} {s : State} {m : Move} {x : Resolution}

/-- At its time a special activity is carried out as a whole. -/
theorem sideline_of_now {c : Accompaniment Plan} {timing : Timing} {after : Option Nat}
    (htime : c.timing = timing) (hstage : timing = .during → c.afterStage.map UInt64.toNat = after)
    (z : Performance) : r.sideline (some c) timing after z = c.special.runWhole r z :=
  if_pos ⟨htime, hstage⟩

/-- A special activity that follows one of several stages is carried out among them. -/
theorem runStages_special {host : Plan} {a : Action} {c : Accompaniment Plan}
    (hhost : host.For m a false) (hspecial : m.Accompanied (some c)) (hduring : c.timing = .during)
    {k : Nat} (hk : c.afterStage.map UInt64.toNat = some k) :
    ∀ {stages : List Stage} {i : Nat} {x y : Performance}, i ≤ k → k < i + stages.length →
      host.runStages r (fun i x => r.sideline (some c) .during (some i) x) i stages x = .ok y →
        c.special.RunsBetween r x.session y.session
  | [], i, x, y, hle, hlt, _ => by
    simp only [List.length_nil] at hlt
    omega
  | stage :: stages, i, x, y, hle, hlt, h => by
    simp only [List.length_cons] at hlt
    obtain ⟨x₁, hstage, h⟩ := bind_eq_ok h
    obtain ⟨x₂, hside, h⟩ := bind_eq_ok h
    have hruns : r.Runs x.session x₁.session :=
      (Plan.runEffects_asks hhost r _ _ _ x).of_ok hstage
    by_cases hnow : i = k
    · have hwhole : c.special.runWhole r x₁ = .ok x₂ := by
        rw [← sideline_of_now hduring (fun _ => hnow ▸ hk)]
        exact hside
      have hrest : r.Runs x₂.session y.session :=
        (Plan.runStages_asks hhost (fun _ => .inl) r
          (fun j => r.sideline_asks m hspecial .during (some j)) stages (i + 1) x₂).of_ok h
      exact ⟨x₁, x₂, hruns, hwhole, hrest⟩
    · have hmore : r.Runs x₁.session x₂.session :=
        (r.sideline_asks m hspecial .during (some i) x₁).of_ok hside
      obtain ⟨z, z', hbefore, hwhole, hafter⟩ :=
        runStages_special hhost hspecial hduring hk (by omega) (by omega) h
      exact ⟨z, z', (hruns.trans hmore).trans hbefore, hwhole, hafter⟩

/-- A host is carried out together with the whole of its special activity. -/
theorem perform_special {host : Plan} {a : Action} {c : Accompaniment Plan}
    (hhost : host.For m a false) (hspecial : m.Accompanied (some c))
    (htime : c.timing = .during →
      ∃ k, c.afterStage.map UInt64.toNat = some k ∧ k < host.stages.length)
    {x y : Performance} (h : r.perform host (some c) x = .ok y) :
    c.special.RunsBetween r x.session y.session := by
  obtain ⟨x₁, hpay, h⟩ := bind_eq_ok h
  obtain ⟨x₂, hbefore, h⟩ := bind_eq_ok h
  obtain ⟨x₃, hstages, hafter⟩ := bind_eq_ok h
  have hside := r.sideline_asks m hspecial
  have hpaid : r.Runs x.session x₁.session := (Plan.pay_asks hhost r x).of_ok hpay
  have hstaged : r.Runs x₂.session x₃.session :=
    (Plan.runStages_asks hhost (fun _ => .inl) r (fun j => hside .during (some j)) host.stages 0
      x₂).of_ok hstages
  cases hc : c.timing with
  | before =>
    rw [sideline_of_now hc (by simp)] at hbefore
    have hlast := (hside .after none x₃).of_ok hafter
    exact ⟨x₁, x₂, hpaid, hbefore, hstaged.trans hlast⟩
  | during =>
    obtain ⟨k, hk, hlt⟩ := htime hc
    have hfirst := (hside .before none x₁).of_ok hbefore
    have hlast := (hside .after none x₃).of_ok hafter
    obtain ⟨z, z', hz, hwhole, hz'⟩ :=
      runStages_special hhost hspecial hc hk (Nat.zero_le k) (by omega) hstages
    exact ⟨z, z', (hpaid.trans hfirst).trans hz, hwhole, hz'.trans hlast⟩
  | after =>
    rw [sideline_of_now hc (by simp)] at hafter
    have hfirst := (hside .before none x₁).of_ok hbefore
    exact ⟨x₃, y, (hpaid.trans hfirst).trans hstaged, hafter, .refl⟩

/-- What a resolved move carries out: a plan for its host, and perhaps one for a special
activity. -/
structure CarriesOut (r : Rules) (s : State) (m : Move) (x : Resolution) (host : Plan)
    (special : Option (Accompaniment Plan)) : Prop where
  hostPlanned : ∃ a, r.definition.action? m.action = some a ∧
    Plan.make r.game s m a m.free false = .ok host
  specialPlanned : r.planCompound s m host.stages.length = .ok special
  performed : ∃ y, r.perform host special { session := { state := s } } = .ok y ∧
    y.session = x.session

/-- A move that resolves carries out a plan for its host, and one for its special activity if it has
one. -/
theorem exists_carriesOut (h : r.resolve s m = .ok x) :
    ∃ host special, r.CarriesOut s m x host special := by
  obtain ⟨a, grant, host, special, y, -, ha, -, -, hhost, hspecial, hy, rfl⟩ :=
    resolve_eq_ok_iff.1 h
  exact ⟨host, special, ⟨a, ha, hhost⟩, hspecial, y, hy, rfl⟩

/-- How a special activity has been planned. -/
theorem planCompound_of_compound {c : Accompaniment Move} (hc : m.compound = some c) {stages : Nat}
    {special : Option (Accompaniment Plan)} (h : r.planCompound s m stages = .ok special) :
    ∃ a plan, r.definition.action? c.special.action = some a ∧
      Plan.make r.game s c.special a m.free true = .ok plan ∧
      special = some { special := plan, timing := c.timing, afterStage := c.afterStage } ∧
      (c.timing = .during → ∃ k, c.afterStage.map UInt64.toNat = some k ∧ k < stages) := by
  unfold planCompound at h
  rw [hc] at h
  obtain ⟨planned, hplanned, h⟩ := bind_eq_ok h
  obtain ⟨⟨⟩, htiming, hplanned⟩ := bind_eq_ok hplanned
  have htime : c.timing = .during → ∃ k, c.afterStage.map UInt64.toNat = some k ∧ k < stages := by
    intro hduring
    unfold Accompaniment.checkTiming at htiming
    rw [hduring] at htiming
    cases hn : c.afterStage with
    | none =>
      rw [hn] at htiming
      cases htiming
    | some n =>
      rw [hn] at htiming
      exact ⟨n.toNat, rfl, of_decide_eq_true (ensure_eq_ok htiming)⟩
  cases ha : r.definition.action? c.special.action with
  | none =>
    rw [ha] at hplanned
    cases hplanned
  | some a =>
    rw [ha] at hplanned
    obtain ⟨plan, hplan, hplanned⟩ := bind_eq_ok hplanned
    cases hplanned
    cases h
    exact ⟨a, plan, rfl, hplan, rfl, htime⟩

/-- What a resolved move carries out of its special activity: it has been planned for the action
that the move names, and the whole plan is carried out. -/
theorem CarriesOut.special_runs {host : Plan} {special : Option (Accompaniment Plan)}
    (h : r.CarriesOut s m x host special) {c : Accompaniment Move} (hc : m.compound = some c) :
    ∃ a plan, r.definition.action? c.special.action = some a ∧
      Plan.make r.game s c.special a m.free true = .ok plan ∧
      special = some { special := plan, timing := c.timing, afterStage := c.afterStage } ∧
      plan.RunsBetween r { state := s } x.session := by
  obtain ⟨a, plan, ha, hplan, hspecial, htime⟩ := planCompound_of_compound hc h.specialPlanned
  obtain ⟨b, hb, hhost⟩ := h.hostPlanned
  obtain ⟨y, hy, hsession⟩ := h.performed
  have haccompanied : m.Accompanied special :=
    (r.planCompound_asks s m host.stages.length).of_ok h.specialPlanned
  have hfor : host.For m b false := (Plan.make_asks r.game s m b m.free false).of_ok hhost
  refine ⟨a, plan, ha, hplan, hspecial, ?_⟩
  rw [hspecial] at haccompanied hy
  rw [← hsession]
  exact perform_special hfor haccompanied htime hy

end Rules

/-! ## Which pipeline is checked, and which is carried out -/

namespace Accompaniment

/-- What a special activity sees when the pipeline that carries it out for a seat is chosen. -/
def view (c : Accompaniment Move) (g : Game) (s : State) (seat : Seat) : View :=
  { game := g, state := s, bindings := .ofParams c.special.params, actor := seat }

/-- A special activity accompanies its host as a pipeline allows: the host is one of those that it
may accompany, if they are listed, and the params of both are related as asked. -/
structure Obeys (c : Accompaniment Move) (host : Move) (p : Pipeline) : Prop where
  mayAccompany : ∀ hosts, p.accompanies = some hosts → host.action ∈ hosts
  related : ∀ rule ∈ p.paramRules,
    rule.relation.holds (brokenRule?.valuesOf host rule.hostParam)
      (brokenRule?.valuesOf c.special rule.specialParam) = true

variable {c : Accompaniment Move} {g : Game} {s : State} {host : Move}

/-- What passes the check obeys the pipeline that is chosen for the active seat. -/
theorem check_eq_ok (h : c.check g s host = .ok ()) :
    ∃ checked, dispatchPipeline c.special.action (c.view g s s.active) = .ok checked ∧
      ∀ p, checked = .matched p → c.Obeys host p := by
  obtain ⟨⟨⟩, -, h⟩ := bind_eq_ok h
  obtain ⟨⟨⟩, -, h⟩ := bind_eq_ok h
  obtain ⟨checked, hchecked, h⟩ := bind_eq_ok h
  refine ⟨checked, liftM_eq_ok hchecked, ?_⟩
  rintro p rfl
  obtain ⟨⟨⟩, hmay, h⟩ := bind_eq_ok h
  have hallowed := ensure_eq_ok hmay
  refine ⟨fun hosts hhosts => ?_, fun rule hrule => ?_⟩
  · simpa [Pipeline.mayAccompany, hhosts] using hallowed
  · cases hbroken : c.brokenRule? host p with
    | some broken =>
      rw [hbroken] at h
      cases h
    | none =>
      have hkept := List.find?_eq_none.1 hbroken rule hrule
      simpa using hkept

end Accompaniment

namespace Plan

/-- A plan takes its cost and its stages from what carries its action out. -/
def Follows (p : Plan) : Dispatch → Prop
  | .plain =>
    p.cost = p.action.cost ∧ p.stages = [{ name := onlyStage, effects := p.action.effects }]
  | .matched q => p.cost = q.cost ∧ p.stages = stagesOf q p.action
  | .unmatched => False

variable {g : Game} {s : State} {m : Move} {a : Action} {free special : Bool} {plan : Plan}

/-- A plan has passed the check of what carries out its action, for its executor. -/
theorem checkPipeline_of_make (h : make g s m a free special = .ok plan) :
    plan.action = a ∧ checkPipeline a free
      { game := g, state := s, bindings := .ofParams m.params, actor := plan.executor } =
        .ok (plan.cost, plan.stages, plan.payment) := by
  obtain ⟨executor, -, h⟩ := bind_eq_ok h
  obtain ⟨⟨⟩, -, h⟩ := bind_eq_ok h
  obtain ⟨⟨⟩, -, h⟩ := bind_eq_ok h
  obtain ⟨holds, -, h⟩ := bind_eq_ok h
  obtain ⟨⟨⟩, -, h⟩ := bind_eq_ok h
  obtain ⟨⟨cost, stages, payment⟩, hpipeline, h⟩ := bind_eq_ok h
  cases h
  exact ⟨rfl, hpipeline⟩

/-- What passes that check carries out an action without pipelines, or by one that accepts a
payment. -/
theorem checkPipeline_eq_ok {v : View} {cost : List Effect} {stages : List Stage}
    {payment : Payment} (h : checkPipeline a free v = .ok (cost, stages, payment)) :
    (dispatchPipeline a.id v = .ok .plain ∧ cost = a.cost ∧
      stages = [{ name := onlyStage, effects := a.effects }] ∧ payment = .plain free) ∨
    ∃ q, dispatchPipeline a.id v = .ok (.matched q) ∧ cost = q.cost ∧ stages = stagesOf q a ∧
      q.payment free v = .ok (.ok payment) := by
  obtain ⟨chosen, hchosen, h⟩ := bind_eq_ok h
  have hdispatch := liftM_eq_ok hchosen
  cases chosen with
  | plain =>
    cases h
    exact .inl ⟨hdispatch, rfl, rfl, rfl⟩
  | unmatched => cases h
  | matched q =>
    obtain ⟨paid, hpaid, h⟩ := bind_eq_ok h
    cases paid with
    | error refusal => cases h
    | ok payment =>
      cases h
      exact .inr ⟨q, hdispatch, rfl, rfl, liftM_eq_ok hpaid⟩

/-- A plan follows the pipeline that is chosen for its executor. -/
theorem follows_of_make (h : make g s m a free special = .ok plan) :
    plan.action = a ∧ ∃ chosen, dispatchPipeline a.id
      { game := g, state := s, bindings := .ofParams m.params, actor := plan.executor } =
        .ok chosen ∧ plan.Follows chosen := by
  obtain ⟨rfl, hpipeline⟩ := checkPipeline_of_make h
  obtain ⟨hplain, hcost, hstages, -⟩ | ⟨q, hmatched, hcost, hstages, -⟩ :=
    checkPipeline_eq_ok hpipeline
  · exact ⟨rfl, _, hplain, hcost, hstages⟩
  · exact ⟨rfl, _, hmatched, hcost, hstages⟩

end Plan

namespace Rules

variable {r : Rules} {s : State} {m : Move} {x : Resolution}

/-- A special activity is checked by the pipeline that is chosen for the active seat, and it is
carried out by the one that is chosen for its executor.  So it is carried out by a pipeline whose
rules about its host it breaks exactly if these are two pipelines and nobody has asked the second
one; which takes an executor other than the active seat. -/
theorem disobeys_iff (h : r.resolve s m = .ok x) {c : Accompaniment Move}
    (hc : m.compound = some c) :
    ∃ (plan : Plan) (checked chosen : Dispatch), x.special = some (plan.action, plan.executor) ∧
      r.definition.action? c.special.action = some plan.action ∧
      plan.RunsBetween r { state := s } x.session ∧
      dispatchPipeline c.special.action (c.view r.game s s.active) = .ok checked ∧
      (∀ p, checked = .matched p → c.Obeys m p) ∧
      dispatchPipeline c.special.action (c.view r.game s plan.executor) = .ok chosen ∧
      plan.Follows chosen ∧ (plan.executor = s.active → chosen = checked) ∧
      ((∃ p, chosen = .matched p ∧ ¬ c.Obeys m p) ↔
        ∃ p, chosen = .matched p ∧ checked ≠ .matched p ∧ plan.executor ≠ s.active ∧
          ¬ c.Obeys m p) := by
  obtain ⟨a, grant, host, special, y, -, ha, hcheck, -, hhost, hspecial, hy, rfl⟩ :=
    resolve_eq_ok_iff.1 h
  obtain ⟨b, plan, hb, hplan, rfl, hruns⟩ :=
    CarriesOut.special_runs (x := { (default : Resolution) with session := y.session })
      ⟨⟨a, ha, hhost⟩, hspecial, y, hy, rfl⟩ hc
  unfold checkCompound at hcheck
  rw [hc] at hcheck
  obtain ⟨checked, hchecked, hobeys⟩ := Accompaniment.check_eq_ok hcheck
  obtain ⟨rfl, chosen, hchosen, hfollows⟩ := Plan.follows_of_make hplan
  have hid : plan.action.id = c.special.action := by simpa using List.find?_some hb
  rw [hid] at hchosen
  have hsame : plan.executor = s.active → chosen = checked := by
    intro hexecutor
    rw [hexecutor] at hchosen
    exact Except.ok.inj (hchosen.symm.trans hchecked)
  refine ⟨plan, checked, chosen, rfl, hb, hruns, hchecked, hobeys, hchosen, hfollows, hsame, ?_⟩
  constructor
  · rintro ⟨p, hp, hdisobeys⟩
    have hunchecked : checked ≠ .matched p := fun hp' => hdisobeys (hobeys p hp')
    refine ⟨p, hp, hunchecked, fun hexecutor => ?_, hdisobeys⟩
    exact hunchecked ((hsame hexecutor).symm.trans hp)
  · rintro ⟨p, hp, -, -, hdisobeys⟩
    exact ⟨p, hp, hdisobeys⟩

end Rules

/-! ## A convoy -/

/-- A game with a raid that the second seat carries out.  In the name of the active seat it would be
an escort, which may accompany a march; in the name of the other seat it goes alone. -/
def Definition.convoy : Definition :=
  { Definition.minimal "convoy" with
    globalVars := [.ofInt "spoils" 0 0 9]
    actions := [
      { id := "march" },
      { id := "raid", executor := .id ⟨1⟩, effects := [.setGlobal "spoils" (.int 1)] }]
    pipelines := [
      { id := "escort", action := "raid"
        applicability := some (.eq (.ref .actor) (.ref .activeSeat))
        accompanies := some ["march"] },
      { id := "lone", action := "raid", accompanies := some [] }] }

/-- The rules of that game, under the usual limits. -/
def Rules.convoy : Rules := { game := .ofDefinition .convoy }

/-- Where two seats start that game. -/
def State.convoy : State := (Rules.convoy.game.start 2 0).toOption.getD default

/-- A march with a raid that comes first. -/
def Move.convoy : Move := (Move.named "march").accompaniedBy (.named "raid") .before none

/-- On a convoy the raid goes alone, which may accompany nothing. -/
theorem Rules.disobeys_convoy :
    ∃ x c p, ∃ plan : Plan, Rules.convoy.resolve .convoy .convoy = .ok x ∧
      Move.convoy.compound = some c ∧
      x.session.state.globalVar? "spoils" = some 1 ∧
      dispatchPipeline c.special.action (c.view Rules.convoy.game .convoy plan.executor) =
        .ok (.matched p) ∧
      plan.RunsBetween .convoy { state := .convoy } x.session ∧ p.accompanies = some [] ∧
      ¬ c.Obeys .convoy p := by
  obtain ⟨x, hx⟩ : ∃ x, Rules.convoy.resolve .convoy .convoy = .ok x :=
    exists_ok_of_isOk (by decide +kernel)
  have hspoils : (Rules.convoy.resolve .convoy .convoy).toOption.bind
      (fun x => x.session.state.globalVar? "spoils") = some 1 := by decide +kernel
  have hspecial : (Rules.convoy.resolve .convoy .convoy).toOption.bind
      (fun x => x.special.map (·.2)) = some ⟨1⟩ := by decide +kernel
  rw [hx] at hspoils hspecial
  obtain ⟨plan, checked, chosen, hplan, -, hruns, -, -, -, -, -, -⟩ :=
    Rules.disobeys_iff hx (show Move.convoy.compound = some _ from rfl)
  have hexecutor : plan.executor = ⟨1⟩ := by
    change x.special.map (·.2) = some ⟨1⟩ at hspecial
    rw [hplan] at hspecial
    exact Option.some.inj hspecial
  obtain ⟨p, hraid, halone⟩ : ∃ p, dispatchPipeline "raid"
      (Accompaniment.view { special := .named "raid", timing := .before } Rules.convoy.game .convoy
        ⟨1⟩) = .ok (.matched p) ∧ p.accompanies = some [] := ⟨_, rfl, rfl⟩
  refine ⟨x, _, p, plan, hx, rfl, hspoils, ?_, hruns, halone, fun hobeys => ?_⟩
  · rw [hexecutor]
    exact hraid
  · have hmember := hobeys.mayAccompany [] halone
    cases hmember

end Tabletop
