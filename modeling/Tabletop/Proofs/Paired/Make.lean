import Tabletop.Proofs.Paired.Resolve
import Tabletop.Proofs.Play.Steps

/-!
# Moves under other limits

A move that is made is made in the same way where there is more leeway and where a trace is kept:
with the same firings it leads to the same state.

Main statement: `Rules.makeMove_paired`.
-/

namespace Tabletop

/-- Nothing but the limits is widened. -/
structure Widening.LimitsOnly (w : Widening) : Prop where
  params : w.params = ∅
  fingerprint : w.fingerprint = id

/-- The second progress is where the first is; their traces may differ. -/
structure Progress.Alongside (p p' : Progress) : Prop where
  state : p'.state = p.state
  firings : p'.journal.firings = p.journal.firings

/-- The second progress and its events are those of the first. -/
def Progress.AlongsideWith (x x' : Progress × List Event) : Prop :=
  x.1.Alongside x'.1 ∧ x'.2 = x.2

section

variable {w : Widening} {p p' : Progress}

/-- Widening nothing but the limits leaves every state. -/
theorem Widening.LimitsOnly.state_eq (hw : w.LimitsOnly) (s : State) : w.state s = s := by
  unfold Widening.state
  rw [hw.fingerprint]
  rfl

namespace Progress

/-- Progress stays alongside when both go on from one state. -/
theorem Alongside.withState (h : p.Alongside p') (s : State) :
    (p.withState s).Alongside (p'.withState s) := ⟨rfl, h.firings⟩

/-- Progress stays alongside when both note a firing. -/
theorem Alongside.log (h : p.Alongside p') (f : Firing) : (p.log f).Alongside (p'.log f) :=
  ⟨h.state, congrArg (· ++ [f]) h.firings⟩

/-- Results that are paired are paired when they are attempted. -/
theorem attempt_paired {α β : Type} {R : α → β → Prop} {a : Result α} {b : Result β}
    (h : Paired (.silent Fault) R a b) (p p' : Progress) :
    Paired (.silent Breakdown) R (p.attempt a) (p'.attempt b) := by
  cases a with
  | error f => exact Paired.error trivial
  | ok x =>
    obtain ⟨y, rfl, hxy⟩ := h
    exact .ok hxy

/-- Effects that are absorbed on both sides leave both where the effects came to. -/
theorem Alongside.absorb (h : p.Alongside p') (hw : w.LimitsOnly) {x x' : Session}
    (hx : w.InStep x x') : (p.absorb x).Alongside (p'.absorb x') ∧ x'.events = x.events := by
  obtain ⟨trace, rfl, -⟩ := hx
  exact ⟨⟨hw.state_eq x.state, h.firings⟩, rfl⟩

end Progress

/-- Effects that run do what they did. -/
theorem runEffects_paired (hw : w.LimitsOnly) (setting : Setting) (root : String) (b : Bindings)
    (effects : List Effect) (s : State) :
    Paired (.silent Fault) w.InStep (runEffects setting root b effects s)
      (runEffects (w.setting setting) root b effects s) := by
  have hstart : w.InStep { state := s } { state := s } := by
    refine ⟨[], ?_, fun _ => rfl⟩
    unfold Widening.session
    rw [hw.state_eq]
  have hrun := Session.run_paired setting root effects (Widening.below_self hw.params b) hstart
  exact hrun.mapError (fun _ _ => trivial)

namespace Rules

variable (r : Rules)

/-! ## Triggers -/

/-- A trigger that fires keeps progress alongside. -/
theorem fire_paired (hw : w.LimitsOnly) (t : Trigger) (depth : UInt32) (e : Event)
    (h : p.Alongside p') :
    Paired (.silent Breakdown) Progress.AlongsideWith (t.fire r depth e p)
      (t.fire (w.rules r) depth e p') := by
  obtain ⟨s, journal⟩ := p
  obtain ⟨s', journal'⟩ := p'
  obtain rfl : s' = s := h.state
  have hrun := runEffects_paired hw (r.strict (Trigger.actor e s') (.trigger t.id depth) none)
    ("trigger:" ++ t.id) e.bindings t.effects s'
  exact (Progress.attempt_paired hrun _ _).bind (fun x x' hx => .pure ((h.log _).absorb hw hx))

/-- The reaction of a trigger keeps progress alongside, if what comes after it does. -/
theorem react_paired (hw : w.LimitsOnly) (depth : UInt32)
    {onward onward' : Option (Event → Progress → Tracked Progress)}
    (honward : Option.Rel (fun f f' => ∀ e p p', Progress.Alongside p p' →
      Paired (.silent Breakdown) Progress.Alongside (f e p) (f' e p')) onward onward')
    (e : Event) (t : Trigger) (h : p.Alongside p') :
    Paired (.silent Breakdown) Progress.Alongside (t.react r depth onward e p)
      (t.react (w.rules r) depth onward' e p') := by
  have hfires : Paired (.silent Fault) Eq (t.fires r.game e p.state)
      (t.fires (w.rules r).game e p'.state) := by
    rw [h.state]
    exact .refl _
  refine (Progress.attempt_paired hfires p p').bind ?_
  rintro fires _ rfl
  cases fires with
  | false => exact .pure h
  | true =>
    cases honward with
    | none => exact Paired.error trivial
    | some hnext =>
      refine (r.fire_paired hw t depth e h).bind ?_
      rintro ⟨q, events⟩ ⟨q', events'⟩ ⟨hq, rfl⟩
      exact Paired.foldlM (fun e _ _ hq => hnext e _ _ hq) events' hq

/-- Putting an event to the triggers at a level keeps progress alongside, by induction on the levels
that are left. -/
theorem dispatchAt_paired (hw : w.LimitsOnly) :
    ∀ (left : Nat) (e : Event) {p p' : Progress}, p.Alongside p' →
      Paired (.silent Breakdown) Progress.Alongside (r.dispatchAt left e p)
        ((w.rules r).dispatchAt left e p') := by
  intro left
  induction left with
  | zero =>
    intro e p p' h
    exact Paired.foldlM (fun t _ _ h => r.react_paired hw _ .none e t.2 h) _ h
  | succ left ih =>
    intro e p p' h
    exact Paired.foldlM
      (fun t _ _ h => r.react_paired hw _ (.some (fun e _ _ => ih e)) e t.2 h) _ h

/-- Putting events to the triggers keeps progress alongside. -/
theorem dispatch_paired (hw : w.LimitsOnly) (events : List Event) (h : p.Alongside p') :
    Paired (.silent Breakdown) Progress.Alongside (r.dispatch events p)
      ((w.rules r).dispatch events p') :=
  Paired.foldlM (fun e _ _ h => r.dispatchAt_paired hw _ e h) events h

/-! ## Lasting effects -/

/-- Setting up lasting effects one after the other keeps progress alongside. -/
theorem activateLasting_paired (hw : w.LimitsOnly) (a : Action) (executor : Seat) (b : Bindings) :
    ∀ (ls : List LastingEffect) {p p' : Progress}, p.Alongside p' →
      Paired (.silent Breakdown) Progress.AlongsideWith (r.activateLasting a executor b ls p)
        ((w.rules r).activateLasting a executor b ls p')
  | [], p, p', h => .ok ⟨h, rfl⟩
  | l :: ls, ⟨s, journal⟩, ⟨s', journal'⟩, h => by
    obtain rfl : s' = s := h.state
    have hrun := runEffects_paired hw (r.strict executor (.lastingSetup l.id) (some a.id))
      ("lasting:" ++ l.id ++ "/setup") b l.setup s'
    refine (Progress.attempt_paired hrun _ _).bind (fun x x' hx => ?_)
    obtain ⟨habsorbed, hevents⟩ := h.absorb hw hx
    have hactive (l : ActiveLasting) := habsorbed.withState (withLasting x.state l)
    dsimp only
    rw [show (Progress.absorb ⟨s', journal'⟩ x').state = x.state from habsorbed.state]
    refine (activateLasting_paired hw a executor b ls (hactive _)).bind ?_
    rintro ⟨q, events⟩ ⟨q', events'⟩ ⟨hq, rfl⟩
    rw [hevents]
    exact .pure ⟨hq, rfl⟩

/-- Tearing down lasting effects one after the other keeps progress alongside. -/
theorem tearDown_paired (hw : w.LimitsOnly) :
    ∀ (ls : List ActiveLasting) {p p' : Progress}, p.Alongside p' →
      Paired (.silent Breakdown) Progress.Alongside (r.tearDown ls p) ((w.rules r).tearDown ls p')
  | [], p, p', h => .ok h
  | l :: ls, ⟨s, journal⟩, ⟨s', journal'⟩, h => by
    obtain rfl : s' = s := h.state
    refine (Progress.attempt_paired (.refl _) _ _).bind ?_
    rintro declared _ rfl
    have hrun := runEffects_paired hw (r.strict l.executor (.lastingTeardown l.id) (some l.action))
      ("lasting:" ++ l.id ++ "/teardown") ∅ declared.teardown s'
    refine (Progress.attempt_paired hrun _ _).bind (fun x x' hx => ?_)
    obtain ⟨habsorbed, hevents⟩ := h.absorb hw hx
    rw [hevents]
    exact (r.dispatch_paired hw x.events habsorbed).bind (fun _ _ hq => tearDown_paired hw ls hq)

/-- The expiry of lasting effects keeps progress alongside. -/
theorem expire_paired (hw : w.LimitsOnly) (d : Duration) (h : p.Alongside p') :
    Paired (.silent Breakdown) Progress.Alongside (r.expire d p) ((w.rules r).expire d p') := by
  unfold expire
  rw [h.state]
  exact r.tearDown_paired hw _ (h.withState _)

/-! ## Boundaries -/

/-- Leaving a phase keeps progress alongside. -/
theorem leavePhase_paired (hw : w.LimitsOnly) (h : p.Alongside p') :
    Paired (.silent Breakdown) Progress.Alongside (r.leavePhase p) ((w.rules r).leavePhase p') := by
  unfold leavePhase
  rw [h.state]
  refine (r.dispatch_paired hw _ h).bind (fun q q' hq => ?_)
  refine (r.expire_paired hw _ hq).bind (fun q q' hq => ?_)
  rw [hq.state]
  exact .pure (hq.withState _)

/-- Closing a turn keeps progress alongside. -/
theorem closeTurn_paired (hw : w.LimitsOnly) (h : p.Alongside p') :
    Paired (.silent Breakdown) Progress.Alongside (r.closeTurn p) ((w.rules r).closeTurn p') := by
  unfold closeTurn
  rw [h.state]
  refine (r.dispatch_paired hw _ h).bind (fun q q' hq => ?_)
  refine (r.expire_paired hw _ hq).bind (fun q q' hq => ?_)
  rw [hq.state]
  refine (Progress.attempt_paired (.refl _) _ _).bind ?_
  rintro s _ rfl
  exact r.dispatch_paired hw _ (hq.withState s)

/-- Ending a turn and starting the next keeps progress alongside. -/
theorem endTurn_paired (hw : w.LimitsOnly) (h : p.Alongside p') :
    Paired (.silent Breakdown) Progress.Alongside (r.endTurn p) ((w.rules r).endTurn p') :=
  (r.leavePhase_paired hw h).bind (fun _ _ hq => r.closeTurn_paired hw hq)

/-! ## Transitions -/

/-- A transition keeps progress alongside. -/
theorem transition_paired (hw : w.LimitsOnly) (h : p.Alongside p') :
    Paired (.silent Breakdown) Progress.Alongside (r.transition p) ((w.rules r).transition p') := by
  unfold transition
  rw [h.state]
  split
  · refine (r.leavePhase_paired hw h).bind (fun q q' hq => ?_)
    rw [hq.state]
    exact .pure (hq.withState _)
  · refine .ite (fun _ => ?_) (fun _ => ?_)
    · unfold skipSeat
      rw [h.state]
      exact .ite (fun _ => r.endTurn_paired hw (h.withState _)) (fun _ => .pure (h.withState _))
    · refine (r.leavePhase_paired hw h).bind (fun q q' hq => ?_)
      rw [hq.state]
      rw [w.rules_definition]
      cases r.definition.turn.after? q.state.phase with
      | some phase =>
        unfold enterPhase
        dsimp only
        rw [hq.state]
        exact r.dispatch_paired hw _ (hq.withState _)
      | none => exact r.closeTurn_paired hw hq

/-! ## Decisions -/

/-- Where a move stands, it stands with more leeway. -/
theorem standing_stays (hw : w.LimitsOnly) (s : State) (m : Move) :
    Stays (r.standing s m) ((w.rules r).standing s m) := by
  have hpaired := r.resolve_paired s (Widening.moves_self hw.params m)
  rw [hw.state_eq] at hpaired
  unfold standing
  cases hresolve : r.resolve s m with
  | ok x =>
    obtain ⟨y, hy, -⟩ := hpaired.of_ok hresolve
    rw [hy]
    exact .refl _
  | error st =>
    have htells := hpaired.of_error hresolve
    cases st with
    | fault fault => exact Stays.fault
    | refused rejection =>
      rw [show (w.rules r).resolve s m = .error (.refused rejection) from htells]
      exact .refl _
    | pending q =>
      have hmissing : Missing _ (w.settles? q) q.decision.Takes ((w.rules r).resolve s m) := htells
      have hnone : w.settles? q = none := by
        unfold Widening.settles?
        rw [hw.params]
        split <;> rfl
      rw [hmissing.none hnone]
      exact .refl _

/-- A level of exploring goes by where the move stands. -/
theorem explore_succ (s : State) (cap fuel : Nat) (m : Move) (found : Array Move) :
    r.explore s cap (fuel + 1) m found =
      if cap ≤ found.size then .ok found
      else r.standing s m >>= fun
        | .complete => .ok (found.push m)
        | .pending q =>
          q.decision.choices.foldlM (fun found x => r.explore s cap fuel (m.answer q x) found) found
        | .illegal _ => .ok found := by
  rw [explore]
  unfold standing
  cases r.resolve s m with
  | ok x => rfl
  | error st => cases st <;> rfl

/-- Exploring moves under more leeway lists the same, by induction on the levels that are left. -/
theorem explore_stays (hw : w.LimitsOnly) (s : State) (cap : Nat) :
    ∀ (fuel : Nat) (m : Move) (found : Array Move),
      Stays (r.explore s cap fuel m found) ((w.rules r).explore s cap fuel m found) := by
  intro fuel
  induction fuel with
  | zero => exact fun _ _ => .refl _
  | succ fuel ih =>
    intro m found
    rw [explore_succ, explore_succ]
    refine .ite (fun _ => .refl _) (fun _ => (r.standing_stays hw s m).bind (fun standing => ?_))
    cases standing with
    | complete => exact .refl _
    | illegal rejection => exact .refl _
    | pending q =>
      refine Paired.foldlM (fun y found found' hfound => ?_) _ rfl
      rw [← hfound]
      exact ih (m.answer q y) found

/-- Going on leads to the same decision. -/
theorem advanceWithin_paired (hw : w.LimitsOnly)
    (hdecision : ∀ s, Stays (r.atDecision s) ((w.rules r).atDecision s)) :
    ∀ {n n' : Nat} {p p' : Progress}, n ≤ n' → p.Alongside p' →
      Paired (.silent Breakdown) Progress.Alongside (r.advanceWithin n p)
        ((w.rules r).advanceWithin n' p') := by
  have hattempt {p p' : Progress} (h : p.Alongside p') :
      Paired (.silent Breakdown) Eq (p.attempt (r.atDecision p.state))
        (p'.attempt ((w.rules r).atDecision p'.state)) := by
    rw [h.state]
    exact Progress.attempt_paired (hdecision p.state) p p'
  intro n
  induction n with
  | zero =>
    intro n' p p' _ h
    have hstop {f : Fault} {q : Tracked Progress} (decides : Bool) :
        Paired (.silent Breakdown) Progress.Alongside
          (if decides then pure p else p.attempt (.error f))
          (if decides then pure p' else q) :=
      .ite (fun _ => .pure h) (fun _ => Paired.error trivial)
    cases n' with
    | zero =>
      refine (hattempt h).bind ?_
      rintro decides _ rfl
      exact hstop decides
    | succ n' =>
      refine (hattempt h).bind ?_
      rintro decides _ rfl
      exact hstop decides
  | succ n ih =>
    intro n' p p' hn h
    cases n' with
    | zero => exact absurd hn (Nat.not_succ_le_zero n)
    | succ n' =>
      refine (hattempt h).bind ?_
      rintro decides _ rfl
      refine .ite (fun _ => .pure h) (fun _ => ?_)
      exact (r.transition_paired hw h).bind (fun _ _ hq => ih (Nat.le_of_succ_le_succ hn) hq)

/-! ## Moves -/

/-- Taking an action keeps progress alongside. -/
theorem take_paired (hw : w.LimitsOnly) (a : Action) (executor : Seat) (params : Dict Selection)
    (h : p.Alongside p') :
    Paired (.silent Breakdown) Progress.AlongsideWith (r.take a executor params p)
      ((w.rules r).take a executor params p') := by
  refine (r.activateLasting_paired hw a executor _ _ h).bind ?_
  rintro ⟨q, events⟩ ⟨q', events'⟩ ⟨hq, rfl⟩
  dsimp only
  rw [hq.state]
  exact .pure ⟨hq.withState _, rfl⟩

/-- Taking a special activity keeps progress alongside. -/
theorem takeSpecial_paired (hw : w.LimitsOnly) (m : Move) {x x' : Resolution}
    (hspecial : x'.special = x.special) (h : p.Alongside p') :
    Paired (.silent Breakdown) Progress.AlongsideWith (r.takeSpecial m x p)
      ((w.rules r).takeSpecial m x' p') := by
  unfold takeSpecial
  rw [hspecial]
  split
  · exact r.take_paired hw _ _ _ h
  · exact .ok ⟨h, rfl⟩

/-- Taking the actions of a move keeps progress alongside. -/
theorem takeActions_paired (hw : w.LimitsOnly) (m : Move) {x x' : Resolution}
    (hx : w.Resolves x x') :
    Paired (.silent Breakdown) Progress.AlongsideWith (r.takeActions m x)
      ((w.rules r).takeActions m x') := by
  obtain ⟨trace, hsession, -⟩ := hx.session
  have hstart : Progress.Alongside
      { state := x.session.state, journal := { trace := x.session.trace } }
      { state := x'.session.state, journal := { trace := x'.session.trace } } := by
    rw [hsession]
    exact ⟨hw.state_eq x.session.state, rfl⟩
  have hevents : x'.session.events = x.session.events := by rw [hsession]; rfl
  unfold takeActions
  rw [hx.action, hx.executor, hx.grant, hevents]
  refine (r.take_paired hw _ _ _ hstart).bind ?_
  rintro ⟨q, events⟩ ⟨q', _⟩ ⟨hq, rfl⟩
  refine (r.takeSpecial_paired hw m hx.special hq).bind ?_
  rintro ⟨q, events'⟩ ⟨q', _⟩ ⟨hq, rfl⟩
  cases x.grant with
  | none => exact .pure ⟨hq, rfl⟩
  | some id =>
    dsimp only
    rw [hq.state]
    exact .pure ⟨hq.withState _, rfl⟩

/-- Going on after a move keeps progress alongside, if both find the same states to have a
decision. -/
theorem goOn_paired (hw : w.LimitsOnly)
    (hdecision : ∀ s, Stays (r.atDecision s) ((w.rules r).atDecision s)) (m : Move)
    (h : p.Alongside p') :
    Paired (.silent Breakdown) Progress.Alongside (r.goOn m p) ((w.rules r).goOn m p') := by
  unfold goOn
  rw [h.state]
  have hadvance {q q' : Progress} (hq : q.Alongside q') :
      Paired (.silent Breakdown) Progress.Alongside (r.advance q) ((w.rules r).advance q') :=
    r.advanceWithin_paired hw hdecision (w.maxTransitions_le _) hq
  dsimp only
  refine .ite (fun _ => ?_) (fun _ => ?_)
  · exact (r.endTurn_paired hw (h.withState _)).bind (fun _ _ => hadvance)
  · exact hadvance (h.withState _)

/-- Committing a move keeps progress alongside, if both find the same states to have a decision. -/
theorem commit_paired (hw : w.LimitsOnly)
    (hdecision : ∀ s, Stays (r.atDecision s) ((w.rules r).atDecision s)) (m : Move) (mover : Seat)
    {x x' : Resolution} (hx : w.Resolves x x') :
    Paired (.silent Breakdown) Progress.Alongside (r.commit m mover x)
      ((w.rules r).commit m mover x') := by
  refine (r.takeActions_paired hw m hx).bind ?_
  rintro ⟨p, _⟩ ⟨p', events⟩ ⟨hp, rfl⟩
  have htaken : actionsTaken x' = actionsTaken x := by
    unfold actionsTaken
    rw [hx.action, hx.special]
  refine Paired.bind (R := Progress.Alongside) ?_ (fun q q' hq => r.goOn_paired hw hdecision m hq)
  unfold reactTo
  rw [htaken]
  exact (r.dispatch_paired hw events hp).bind (fun _ _ hq => r.dispatch_paired hw _ hq)

/-- A move that is made comes to the same, up to its trace. -/
theorem makeMove_paired (hw : w.LimitsOnly)
    (hdecision : ∀ s, Stays (r.atDecision s) ((w.rules r).atDecision s)) {s : State} {m : Move}
    {res : MoveResult} (h : r.makeMove s m = .ok res) :
    ∃ trace, (w.rules r).makeMove s m = .ok { res with trace } := by
  obtain ⟨x, p, hx, hp, rfl⟩ := makeMove_eq_ok h
  have hpaired := r.resolve_paired s (Widening.moves_self hw.params m)
  rw [hw.state_eq] at hpaired
  obtain ⟨x', hx', hresolves⟩ := hpaired.of_ok hx
  obtain ⟨p', hp', halong⟩ := (r.commit_paired hw hdecision m s.active hresolves).of_ok hp
  unfold makeMove
  rw [hx']
  dsimp only
  rw [hp']
  dsimp only
  rw [halong.state, halong.firings, hresolves.warnings]
  exact ⟨_, rfl⟩

end Rules

end

end Tabletop
