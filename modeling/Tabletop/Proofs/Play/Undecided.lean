import Tabletop.Proofs.Play.Completeness
import Tabletop.Proofs.TurnOrder.Course

/-!
# What the active seat could still do

On the way to the next decision the game moves on out of a state as soon as no move is found there.
The search looks at moves of one kind only: without a special activity and of the action's own
class, passes always in turn, and several options in the order of their domain.  So the active seat
may still have a move when the game moves on from it, but only one of another kind: one that this
search could not have come across even as the same move in plainer form.

Main statement: `Rules.standing_ne_complete_of_undecided`; `Rules.undecided_siege` has a move for
each of its conditions.
-/

namespace Tabletop

/-! ## Carrying out a host alone -/

namespace Plan

variable {p : Plan} {r : Rules}

/-- Stages can be carried out alone, if nothing comes in before the last one. -/
theorem runStages_alone {after : Nat → Performance → Check Performance} :
    ∀ {stages : List Stage} {i : Nat} {x y : Performance},
      (∀ k z, k + 1 < i + stages.length → after k z = .ok z) →
        p.runStages r after i stages x = .ok y →
          ∃ z, p.runStages r (fun _ x => .ok x) i stages x = .ok z
  | [], _, x, _, _, _ => ⟨x, rfl⟩
  | [stage], i, x, y, _, h => by
    obtain ⟨x', hrun, -⟩ := bind_eq_ok h
    exact ⟨x', bind_ok hrun rfl⟩
  | stage :: next :: rest, i, x, y, hafter, h => by
    obtain ⟨x', hrun, h⟩ := bind_eq_ok h
    obtain ⟨x'', hquiet, h⟩ := bind_eq_ok h
    have hsame : x'' = x' := by
      rw [hafter i x' (by simp only [List.length_cons]; omega)] at hquiet
      exact (Except.ok.inj hquiet).symm
    rw [hsame] at h
    have hrest : ∀ k z, k + 1 < i + 1 + (next :: rest).length → after k z = .ok z := by
      intro k z hk
      apply hafter
      simp only [List.length_cons] at hk ⊢
      omega
    obtain ⟨z, hz⟩ := runStages_alone hrest h
    exact ⟨z, bind_ok hrun (bind_ok rfl hz)⟩

/-- How a plan is paid for does not matter to its stages. -/
theorem runStages_payment (payment : Payment) (after : Nat → Performance → Check Performance) :
    ∀ (stages : List Stage) (i : Nat) (x : Performance),
      { p with payment }.runStages r after i stages x = p.runStages r after i stages x
  | [], _, _ => rfl
  | stage :: rest, i, x => by
    simp only [runStages]
    congr 1
    funext x'
    congr 1
    funext x''
    exact runStages_payment payment after rest (i + 1) x''

end Plan

/-- A special activity that comes in last: once all stages of its host have been carried out. -/
def Accompaniment.IsLast {μ : Type} (c : Accompaniment μ) (stages : Nat) : Prop :=
  c.timing = .after ∨ c.timing = .during ∧ ∃ n, c.afterStage = some n ∧ n.toNat + 1 = stages

namespace Rules

variable {r : Rules} {s : State} {m : Move} {x : Resolution}

/-- At any other time than its own, a special activity does nothing. -/
theorem sideline_of_other {special : Option (Accompaniment Plan)} {timing : Timing}
    {after : Option Nat} (z : Performance)
    (h : ∀ c, special = some c → c.timing ≠ timing ∨
      timing = .during ∧ c.afterStage.map UInt64.toNat ≠ after) :
    r.sideline special timing after z = .ok z := by
  cases special with
  | none => rfl
  | some c =>
    refine if_neg (fun htime => ?_)
    rcases h c rfl with hother | ⟨hduring, hstage⟩
    · exact hother htime.1
    · exact hstage (htime.2 hduring)

/-- A host whose special activity comes in last can be carried out alone. -/
theorem perform_alone {host : Plan} {special : Option (Accompaniment Plan)} {x y : Performance}
    (hlast : ∀ c, special = some c → c.IsLast host.stages.length)
    (h : r.perform host special x = .ok y) : ∃ z, r.perform host none x = .ok z := by
  obtain ⟨x₁, hpay, h⟩ := bind_eq_ok h
  obtain ⟨x₂, hbefore, h⟩ := bind_eq_ok h
  obtain ⟨x₃, hstages, -⟩ := bind_eq_ok h
  have hsame : x₂ = x₁ := by
    rw [sideline_of_other x₁ (fun c hc => ?_)] at hbefore
    · exact (Except.ok.inj hbefore).symm
    · rcases hlast c hc with hafter | ⟨hduring, -⟩
      · simp [hafter]
      · simp [hduring]
  have hquiet : ∀ k z, k + 1 < 0 + host.stages.length →
      r.sideline special .during (some k) z = .ok z := by
    intro k z hk
    apply sideline_of_other
    intro c hc
    rcases hlast c hc with hafter | ⟨-, n, hn, hlength⟩
    · simp [hafter]
    · right
      refine ⟨rfl, ?_⟩
      simp only [hn, Option.map_some, ne_eq, Option.some.injEq]
      omega
  rw [hsame] at hstages
  obtain ⟨z, hz⟩ := Plan.runStages_alone hquiet hstages
  exact ⟨z, bind_ok hpay (bind_ok rfl (bind_ok hz rfl))⟩

/-- A special activity that has been planned is that of the move, at its time. -/
theorem planCompound_eq_ok {stages : Nat} {special : Option (Accompaniment Plan)}
    (h : r.planCompound s m stages = .ok special) {c : Accompaniment Plan} (hc : special = some c) :
    ∃ c', m.compound = some c' ∧ c.timing = c'.timing ∧ c.afterStage = c'.afterStage := by
  unfold planCompound at h
  cases hm : m.compound with
  | none =>
    rw [hm] at h
    cases h
    cases hc
  | some c' =>
    rw [hm] at h
    obtain ⟨planned, hplanned, h⟩ := bind_eq_ok h
    cases h
    cases hc
    obtain ⟨-, -, hplanned⟩ := bind_eq_ok hplanned
    refine ⟨c', rfl, ?_⟩
    split at hplanned
    · cases hplanned
    · obtain ⟨plan, -, hplanned⟩ := bind_eq_ok hplanned
      cases hplanned
      exact ⟨rfl, rfl⟩

end Rules

/-! ## What a plan depends on -/

namespace Plan

variable {m m' : Move}

/-- Declared params are checked alike for moves with the same selections. -/
theorem checkParams_congr (h : m'.params = m.params) (a : Action) (special : Bool) (v : View) :
    ∀ ps, checkParams a m' special v ps = checkParams a m special v ps
  | [] => rfl
  | p :: ps => by
    unfold checkParams
    rw [h, checkParams_congr h a special v ps]

/-- Of the move that takes an action, only the params matter to the plan. -/
theorem make_congr (h : m'.params = m.params) (g : Game) (s : State) (a : Action)
    (free special : Bool) : make g s m' a free special = make g s m a free special := by
  unfold make checkSeats checkSelected
  simp only [h, checkParams_congr h]

end Plan

/-! ## Passing in turn -/

/-- An action costs nothing: no cost is declared for it, nor a check whether one can be paid. -/
structure Definition.CostsNothing (d : Definition) (action : ActionId) : Prop where
  cost : ∀ a, d.action? action = some a → a.cost = []
  pipelines : ∀ p ∈ d.pipelinesOf action, p.cost = [] ∧ p.costCheck = none

/-- The first pipeline that applies is one of the pipelines. -/
theorem Pipeline.mem_of_firstApplying? {v : View} {p : Pipeline} :
    ∀ {ps : List Pipeline}, firstApplying? v ps = .ok (some p) → p ∈ ps
  | [], h => by cases h
  | q :: ps, h => by
    obtain ⟨applies, -, h⟩ := bind_eq_ok h
    cases applies with
    | true =>
      cases h
      exact List.mem_cons_self
    | false => exact List.mem_cons_of_mem q (mem_of_firstApplying? h)

/-- The pipeline that carries out an action is one of its pipelines. -/
theorem mem_of_dispatchPipeline {action : ActionId} {v : View} {p : Pipeline}
    (h : dispatchPipeline action v = .ok (.matched p)) : p ∈ v.definition.pipelinesOf action := by
  obtain ⟨found, hfound, h⟩ := bind_eq_ok h
  cases found with
  | some q =>
    cases h
    exact Pipeline.mem_of_firstApplying? hfound
  | none =>
    dsimp only at h
    split at h <;> cases h

namespace Plan

variable {g : Game} {s : State} {m : Move} {a : Action} {v : View}

/-- What carries out an action that costs nothing does so in turn as well. -/
theorem checkPipeline_inTurn (hcost : v.definition.CostsNothing a.id)
    (ha : v.definition.action? a.id = some a) {cost : List Effect} {stages : List Stage}
    {payment : Payment} (h : checkPipeline a true v = .ok (cost, stages, payment)) :
    checkPipeline a false v = .ok (cost, stages, .spend) ∧ cost = [] ∧ payment = .free := by
  obtain ⟨dispatch, hdispatch, h⟩ := bind_eq_ok h
  have hfound := liftM_eq_ok hdispatch
  cases dispatch with
  | unmatched => cases h
  | plain =>
    cases h
    exact ⟨bind_ok hdispatch rfl, hcost.cost a ha, rfl⟩
  | matched p =>
    obtain ⟨hfree, hcheck⟩ := hcost.pipelines p (mem_of_dispatchPipeline hfound)
    obtain ⟨paid, hpaid, h⟩ := bind_eq_ok h
    obtain ⟨legal, hlegal, hpaid⟩ := bind_eq_ok (liftM_eq_ok hpaid)
    cases legal with
    | false =>
      cases hpaid
      cases h
    | true =>
      cases hpaid
      cases h
      refine ⟨bind_ok hdispatch ?_, hfree, rfl⟩
      have hspent : p.payment false v = .ok (.ok .spend) := by
        refine bind_ok hlegal ?_
        simp only [if_true, hcheck, holdsIn]
        rfl
      have hlift : (liftM (p.payment false v) : Check (Except Refusal Payment)) =
          .ok (.ok .spend) := by
        rw [hspent]
        rfl
      exact bind_ok hlift rfl

/-- The plan of a free operation that costs nothing is good in turn as well. -/
theorem make_inTurn (hcost : g.definition.CostsNothing a.id)
    (ha : g.definition.action? a.id = some a)
    {special : Bool} {host : Plan} (h : make g s m a true special = .ok host) :
    make g s m a false special = .ok { host with payment := .spend } ∧ host.cost = [] ∧
      host.payment = .free := by
  obtain ⟨executor, hseats, h⟩ := bind_eq_ok h
  obtain ⟨⟨⟩, havailable, h⟩ := bind_eq_ok h
  obtain ⟨⟨⟩, hparams, h⟩ := bind_eq_ok h
  obtain ⟨holds, hholds, h⟩ := bind_eq_ok h
  obtain ⟨⟨⟩, hpre, h⟩ := bind_eq_ok h
  obtain ⟨⟨cost, stages, payment⟩, hpipeline, h⟩ := bind_eq_ok h
  cases h
  obtain ⟨hinTurn, hfree, hpayment⟩ := checkPipeline_inTurn
    (v := { game := g, state := s, bindings := .ofParams m.params, actor := executor })
    hcost ha hpipeline
  refine ⟨?_, hfree, hpayment⟩
  exact bind_ok hseats (bind_ok havailable (bind_ok hparams (bind_ok hholds (bind_ok hpre
    (bind_ok hinTurn rfl)))))

end Plan

namespace Rules

variable {r : Rules} {s : State} {m : Move} {x : Resolution}

/-- A free operation that costs nothing can be carried out in turn as well. -/
theorem perform_inTurn {host : Plan} (hcost : host.cost = []) (hpayment : host.payment = .free)
    {x y : Performance} (h : r.perform host none x = .ok y) :
    ∃ z, r.perform { host with payment := .spend } none x = .ok z := by
  have hfree : host.pay r x = .ok x := by
    simp [Plan.pay, hpayment, Payment.warning?]
  have hspend : { host with payment := .spend }.pay r x = .ok x := by
    simp only [Plan.pay, hcost]
    rfl
  obtain ⟨x₁, hpay, h⟩ := bind_eq_ok h
  obtain rfl : x = x₁ := Except.ok.inj (hfree.symm.trans hpay)
  refine ⟨y, bind_ok hspend ?_⟩
  simpa only [Plan.runStages_payment] using h

/-! ## Moves in plainer form -/

/-- A move in plainer form: a pass in turn, of the action's own class, and without a special
activity. -/
def plainly (r : Rules) (m : Move) : Move :=
  { m with
    free := m.free && !r.definition.isPass m.action
    classOverride := none
    compound := none }

/-- A move is planned alike in plainer form. -/
theorem make_plainly (a : Action) (free special : Bool) :
    Plan.make r.game s (r.plainly m) a free special = Plan.make r.game s m a free special :=
  Plan.make_congr (show (r.plainly m).params = m.params from rfl) _ _ _ _ _

/-- A grant covers a free operation under the class that its action has. -/
def CoversAsIs (r : Rules) (s : State) (m : Move) : Prop :=
  ∃ a grant, r.definition.action? m.action = some a ∧
    r.game.coverage s { m with classOverride := none } a (.ofParams m.params) = .ok (.ok grant)

/-- A special activity comes in last: once all stages with which its host has been planned have been
carried out. -/
def EndsWithSpecial (r : Rules) (s : State) (m : Move) : Prop :=
  ∀ c a host, m.compound = some c → r.definition.action? m.action = some a →
    Plan.make r.game s m a m.free false = .ok host → c.IsLast host.stages.length

/-- A free operation passes the check of grants exactly if a grant covers it. -/
theorem checkGrant_free {a : Action} {found : Option String} (hfree : m.free = true) :
    r.checkGrant s m a = .ok found ↔
      ∃ grant, r.game.coverage s m a (.ofParams m.params) = .ok (.ok grant) ∧
        found = some grant := by
  unfold checkGrant
  rw [if_pos hfree]
  constructor
  · intro h
    obtain ⟨covered, hcovered, h⟩ := bind_eq_ok h
    cases covered with
    | error denial => cases h
    | ok grant =>
      cases h
      exact ⟨grant, liftM_eq_ok hcovered, rfl⟩
  · rintro ⟨grant, hcovered, rfl⟩
    rw [hcovered]
    rfl

/-- A pass in turn passes the check of grants. -/
theorem checkGrant_pass (a : Action) (hfree : m.free = false)
    (hpass : r.definition.isPass m.action = true) : r.checkGrant s m a = .ok none := by
  unfold checkGrant
  rw [hfree, hpass, Bool.or_true]
  rfl

/-- A move passes the check of grants in plainer form, if it does not need another class. -/
theorem checkGrant_plainly {a : Action} {found : Option String}
    (hclass : m.free = true → r.definition.isPass m.action = false → m.classOverride ≠ none →
      r.CoversAsIs s m)
    (ha : r.definition.action? m.action = some a) (h : r.checkGrant s m a = .ok found) :
    ∃ found', r.checkGrant s (r.plainly m) a = .ok found' := by
  cases hpass : r.definition.isPass m.action with
  | true =>
    have hturn : (r.plainly m).free = false := by simp [plainly, hpass]
    exact ⟨none, checkGrant_pass a hturn hpass⟩
  | false =>
    cases hfree : m.free with
    | false =>
      have hturn : (r.plainly m).free = false := by simp [plainly, hfree]
      refine ⟨found, ?_⟩
      unfold checkGrant at h ⊢
      rw [hfree] at h
      rw [hturn]
      exact h
    | true =>
      have hstill : (r.plainly m).free = true := by simp [plainly, hfree, hpass]
      obtain ⟨grant, hcovered, -⟩ := (checkGrant_free hfree).1 h
      by_cases hnone : m.classOverride = none
      · refine ⟨some grant, (checkGrant_free hstill).2 ⟨grant, ?_, rfl⟩⟩
        unfold Game.coverage at hcovered ⊢
        rw [hnone] at hcovered
        exact hcovered
      · obtain ⟨a', grant', ha', hcovered'⟩ := hclass hfree hpass hnone
        cases ha'.symm.trans ha
        exact ⟨some grant', (checkGrant_free hstill).2 ⟨grant', hcovered', rfl⟩⟩

/-- A move that resolves does so in plainer form, if it does not need another class, if passing
costs nothing, and if its special activity comes in last. -/
theorem resolve_plainly
    (hclass : m.free = true → r.definition.isPass m.action = false → m.classOverride ≠ none →
      r.CoversAsIs s m)
    (hpass : m.free = true → r.definition.isPass m.action = true →
      r.definition.CostsNothing m.action)
    (hlast : r.EndsWithSpecial s m) (hx : r.resolve s m = .ok x) :
    ∃ y, r.resolve s (r.plainly m) = .ok y := by
  obtain ⟨a, grant, host, special, y, hgoes, ha, -, hgrant, hhost, hspecial, hy, -⟩ :=
    resolve_eq_ok_iff.1 hx
  have hid : a.id = m.action := by simpa using List.find?_some ha
  obtain ⟨z, hz⟩ : ∃ z, r.perform host none { session := { state := s } } = .ok z := by
    refine perform_alone (fun c hc => ?_) hy
    obtain ⟨c', hc', htiming, hstage⟩ := planCompound_eq_ok hspecial hc
    have hlast' := hlast c' a host hc' ha hhost
    unfold Accompaniment.IsLast at hlast' ⊢
    rwa [htiming, hstage]
  obtain ⟨grant', hgrant'⟩ := checkGrant_plainly hclass ha hgrant
  obtain ⟨host', z', hhost', hz'⟩ : ∃ host' z',
      Plan.make r.game s (r.plainly m) a (r.plainly m).free false = .ok host' ∧
        r.perform host' none { session := { state := s } } = .ok z' := by
    rw [make_plainly]
    by_cases hchanges : m.free = true ∧ r.definition.isPass m.action = true
    · obtain ⟨hfree, hispass⟩ := hchanges
      have hturn : (r.plainly m).free = false := by simp [plainly, hispass]
      rw [hfree] at hhost
      obtain ⟨hhost', hcost, hpayment⟩ :=
        Plan.make_inTurn (hid ▸ hpass hfree hispass) (hid ▸ ha) hhost
      obtain ⟨z', hz'⟩ := perform_inTurn hcost hpayment hz
      rw [hturn]
      exact ⟨_, z', hhost', hz'⟩
    · have hsame : (r.plainly m).free = m.free := by
        cases hfree : m.free with
        | false => simp [plainly, hfree]
        | true => simpa [plainly, hfree] using hchanges
      rw [hsame]
      exact ⟨host, z, hhost, hz⟩
  exact ⟨_, resolve_eq_ok_iff.2 ⟨a, grant', host', none, z', hgoes, ha, rfl, hgrant', hhost', rfl,
    hz', rfl⟩⟩

/-- Where a grant covers an operation, grants are pending. -/
theorem inGrantWindow_of_coverage {g : Game} {a : Action} {b : Bindings} {grant : String}
    (h : g.coverage s m a b = .ok (.ok grant)) : s.order.inGrantWindow = true := by
  unfold Game.coverage at h
  cases hcard : s.order.card? with
  | none =>
    rw [hcard] at h
    cases h
  | some card =>
    rw [hcard] at h
    dsimp only at h
    by_cases hnone : card.grants = []
    · have hdenied : card.candidates s.active m.action (m.classOverride.or a.operationClass) =
          .error .noActiveSeatGrant := by
        unfold CardState.candidates
        rw [hnone]
        rfl
      rw [hdenied] at h
      cases h
    · simp only [Tracker.inGrantWindow, hcard, Option.any_some]
      exact CardState.inGrantWindow_iff.2 hnone

/-- In plainer form, a move that resolves is free exactly if it is tried as a free operation. -/
theorem free_plainly (hx : r.resolve s (r.plainly m) = .ok x) :
    (r.plainly m).free = (s.order.inGrantWindow && !r.definition.isPass (r.plainly m).action) := by
  cases hfree : (r.plainly m).free with
  | false =>
    obtain ⟨-, hpasses⟩ := inTurn_of_resolve hx hfree
    cases hwindow : s.order.inGrantWindow with
    | false => rfl
    | true => simp [hpasses hwindow]
  | true =>
    obtain ⟨a, grant, host, special, y, -, -, -, hgrant, -⟩ := resolve_eq_ok_iff.1 hx
    obtain ⟨id, hcovered, -⟩ := (checkGrant_free hfree).1 hgrant
    have hpass : r.definition.isPass m.action = false := by
      have hboth := hfree
      simp only [plainly, Bool.and_eq_true, Bool.not_eq_true'] at hboth
      exact hboth.2
    rw [inGrantWindow_of_coverage hcovered]
    simp [plainly, hpass]

/-- Where there is nothing to decide, no move is found. -/
theorem legalMoves_eq_nil_of_undecided (h : r.atDecision s = .ok false) :
    r.legalMoves s 1 false = .ok [] := by
  obtain ⟨outcome, -, h⟩ := bind_eq_ok h
  cases outcome with
  | some o => cases h
  | none =>
    obtain ⟨found, hfound, h⟩ := bind_eq_ok h
    have hempty : found.isEmpty = true := by simpa using Except.ok.inj h
    rw [hfound, List.isEmpty_iff.1 hempty]

/-- Where there is nothing to decide and the game moves on, the active seat has no move, except that
it may have a free operation that no grant covers under the class of its action, a free operation
that passes where passing costs something, a move whose special activity comes in before the end of
its host, or a move that lists several options out of order. -/
theorem standing_ne_complete_of_undecided (hundecided : r.atDecision s = .ok false)
    (hclass : m.free = true → r.definition.isPass m.action = false → m.classOverride ≠ none →
      r.CoversAsIs s m)
    (hpass : m.free = true → r.definition.isPass m.action = true →
      r.definition.CostsNothing m.action)
    (hlast : r.EndsWithSpecial s m) (horder : r.KeepsOrder s (r.plainly m)) :
    r.standing s m ≠ .ok .complete := by
  intro hcomplete
  obtain ⟨x, hx⟩ := standing_complete.1 hcomplete
  obtain ⟨y, hy⟩ := resolve_plainly hclass hpass hlast hx
  -- The search would have come across a move that stands for the plainer form.
  have hnone := legalMoves_eq_nil_of_undecided hundecided
  obtain ⟨n, hn, -⟩ :=
    exists_standsFor hnone Nat.zero_lt_one rfl rfl (free_plainly hy) hy horder
  cases hn

end Rules

/-! ## A siege -/

/-- A game whose first seat can give the second a free operation.  A rally is no operation of its
own accord; passing has a toll that is never paid; a raid needs a scout, and there is none until one
is sent out; and a march can only rest where it ends at the gate. -/
def Definition.siege : Definition :=
  { Definition.minimal "siege" with
    globalVars := [.ofInt "last" 0 0 9]
    zones := [{ id := "camp" }]
    tokenTypes := [{ id := "scout" }]
    order := .cardDriven { seats := [⟨0⟩, ⟨1⟩], passAction := some "pass" }
    actions := [
      { id := "muster"
        effects := [.grantFreeOperation { seat := .id ⟨1⟩, operationClass := some "operation" }] },
      { id := "rally" },
      { id := "pass", operationClass := some "operation" },
      { id := "raid", operationClass := some "operation"
        effects := [.chooseOne "target" (.tokens (.id "camp"))] },
      { id := "scout", effects := [.create "scout" (.id "camp")] },
      { id := "march", operationClass := some "operation"
        effects := [
          .chooseN "route" (.range 0 1) { exactly := some (.int 2) },
          .forAll "step" (.binding "route") [.setGlobal "last" (.binding "step")],
          .chooseOne "rest" (.intRange (.globalVar "last") (.int 0))] }]
    pipelines := [{ id := "toll", action := "pass", costCheck := some (.const false) }] }

/-- The rules of that game, under the usual limits. -/
def Rules.siege : Rules := { game := .ofDefinition .siege }

/-- Where two seats start that game. -/
def State.siege : State := (Rules.siege.game.start 2 0).toOption.getD default

/-- The progress when the first seat has mustered and the triggers have reacted. -/
def Progress.mustered : Progress :=
  ((Rules.siege.resolve .siege (.named "muster")).toOption.bind (fun x =>
    (Rules.siege.carryOut (.named "muster") State.siege.active x).toOption)).getD default

/-- The state in which the game then sets out for the next decision: the second seat is active and
holds a grant. -/
def State.besieged : State :=
  (Progress.mustered.state.afterMove Rules.siege.definition (.named "muster")).2

/-- Moves that the second seat could make: a rally as an operation, a pass as a free operation, a
raid after a scout has been sent out, and a march that ends at the gate. -/
def Move.sorties : List Move :=
  [(Move.named "rally").freely.ofClass "operation",
    (Move.named "pass").freely,
    (((Move.named "raid").select "target" (.one (.str "scout#0"))).freely).accompaniedBy
      (.named "scout") .before none,
    (((Move.named "march").select "route" (.many [.int 1, .int 0])).select "rest"
      (.one (.int 0))).freely]

/-- The game moves on and the second seat gives up its grant, although it could still move: in
another class, by passing free of charge, with a special activity that comes first, or in another
order. -/
theorem Rules.undecided_siege :
    (∃ x, Rules.siege.resolve .siege (.named "muster") = .ok x ∧
      Rules.siege.carryOut (.named "muster") State.siege.active x = .ok .mustered) ∧
    (Progress.mustered.state.afterMove Rules.siege.definition (.named "muster")).1.turnEnded =
      false ∧
    Rules.siege.atDecision .besieged = .ok false ∧
    State.besieged.order.inGrantWindow = true ∧
    (∃ q, Rules.siege.transition (Progress.mustered.withState .besieged) = .ok q ∧
      q.state.order.inGrantWindow = false) ∧
    ∀ m ∈ Move.sorties, Rules.siege.standing .besieged m = .ok .complete := by
  obtain ⟨x, hx⟩ : ∃ x, Rules.siege.resolve .siege (.named "muster") = .ok x :=
    exists_ok_of_isOk (by decide +kernel)
  obtain ⟨p, hp⟩ : ∃ p, Rules.siege.carryOut (.named "muster") State.siege.active x = .ok p := by
    have hcarried : ((Rules.siege.resolve .siege (.named "muster")).toOption.map (fun x =>
        (Rules.siege.carryOut (.named "muster") State.siege.active x).isOk)) = some true := by
      decide +kernel
    rw [hx] at hcarried
    exact exists_ok_of_isOk (Option.some.inj hcarried)
  have hmustered : Progress.mustered = p := by
    unfold Progress.mustered
    rw [hx]
    simp only [Except.toOption, Option.bind_some]
    rw [hp]
    rfl
  obtain ⟨q, hq⟩ : ∃ q, Rules.siege.transition (Progress.mustered.withState .besieged) = .ok q :=
    exists_ok_of_isOk (by decide +kernel)
  have hclosed : (Rules.siege.transition (Progress.mustered.withState .besieged)).toOption.map
      (fun q => q.state.order.inGrantWindow) = some false := by decide +kernel
  rw [hq] at hclosed
  refine ⟨⟨x, hx, hmustered ▸ hp⟩, by decide +kernel, eq_ok_of_toOption (by decide +kernel),
    by decide +kernel, ⟨q, hq, Option.some.inj hclosed⟩, ?_⟩
  have hcomplete : ∀ m ∈ Move.sorties,
      (Rules.siege.standing .besieged m).toOption = some .complete := by decide +kernel
  exact fun m hm => eq_ok_of_toOption (hcomplete m hm)

/-- A raid by which a scout is sent out afterwards. -/
def Move.blindRaid : Move :=
  ((((Move.named "raid").select "target" (.one (.str "scout#0"))).freely).ofClass
    "operation").accompaniedBy (.named "scout") .after none

/-- During the siege a raid that sends its scout out afterwards is no complete move. -/
theorem Rules.standing_ne_complete_of_undecided_siege :
    Rules.siege.standing .besieged .blindRaid ≠ .ok .complete := by
  have hundecided : Rules.siege.atDecision .besieged = .ok false :=
    eq_ok_of_toOption (by decide +kernel)
  refine standing_ne_complete_of_undecided hundecided ?_ ?_ ?_ ?_
  · intro _ _ _
    exact ⟨_, "grant-0", rfl, eq_ok_of_toOption (by decide +kernel)⟩
  · intro _ hpass
    exact absurd hpass (by decide +kernel)
  · intro c a host hc _ _
    cases hc
    exact .inl rfl
  · exact keepsOrder_of_single (by decide +kernel)

end Tabletop
