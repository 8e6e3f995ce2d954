import Tabletop.Play.Make
import Tabletop.Proofs.Play.Asking

/-!
# A move, step by step

Whatever happens between two decisions is made up of steps of a few kinds: effects run, and between
the runs something is written down about lasting effects, uses, grants, the turn order, the turn or
the phase.  What every kind of step preserves, a whole move preserves.

Not every kind of step happens everywhere.  Triggers and the ends of lasting effects react: they run
effects and do nothing else.  Triggers and lasting effects only stir: they leave the turn order to
the effects.  By themselves they do not count uses either; uses are counted where the actions of a
move are taken, once for each.  Going on to the next decision takes turns and phases further, but it
neither uses a grant nor follows a move, and it counts nothing.

Main statements: `Rules.plays_of_makeMove` for a whole move, `Rules.takeActions_takes` for its
actions, `Rules.onwards_of_advance` for what comes after it.
-/

namespace Tabletop

open Relation (ReflTransGen)

namespace Rules

/-- One step of what happens between two decisions. -/
inductive Step (r : Rules) : Progress → Progress → Prop where
  /-- Effects run. -/
  | effects {p : Progress} {x : Session} (hruns : r.Runs { state := p.state } x) :
      Step r p (p.absorb x)
  /-- A firing of a trigger is written down. -/
  | fire (p : Progress) (f : Firing) : Step r p (p.log f)
  /-- A lasting effect becomes active. -/
  | activate (p : Progress) (l : ActiveLasting) : Step r p (p.withState (withLasting p.state l))
  /-- The lasting effects of a duration are no longer active. -/
  | expire (p : Progress) (d : Duration) :
      Step r p (p.withState
        { p.state with lasting := p.state.lasting.filter (fun l => l.duration ≠ d) })
  /-- A use of an action is counted. -/
  | use (p : Progress) (action : ActionId) : Step r p (p.withState (p.state.recordUsage action))
  /-- The counts over a scope start anew. -/
  | reset (p : Progress) (scope : UsageScope) : Step r p (p.withState (p.state.resetUsage scope))
  /-- A grant is used. -/
  | consume (p : Progress) (grant : String) : Step r p (p.withState (p.state.consumeGrant grant))
  /-- The turn order follows a move. -/
  | follow (p : Progress) (m : Move) :
      Step r p (p.withState (p.state.afterMove r.definition m).2)
  /-- The active seat is passed over. -/
  | skip (p : Progress) : Step r p (p.withState (p.state.skipStuckSeat r.definition).2)
  /-- The next turn starts. -/
  | startTurn {p : Progress} {s : State} (hstart : r.startTurn p.state = .ok s) :
      Step r p (p.withState s)
  /-- A suspended phase is resumed. -/
  | resume (p : Progress) (phase : PhaseId) :
      Step r p (p.withState { p.state with suspended := p.state.suspended.dropLast, phase })
  /-- The next phase is entered. -/
  | enterPhase {p : Progress} {phase : PhaseId}
      (hafter : r.definition.turn.after? p.state.phase = some phase) :
      Step r p (p.withState ({ p.state with phase }.syncActive r.definition))

/-- Several steps, or none. -/
abbrev Plays (r : Rules) : Progress → Progress → Prop := ReflTransGen r.Step

/-- One step of triggers or lasting effects: effects run, or something is written down about
firings, lasting effects or uses. -/
inductive Stir (r : Rules) : Progress → Progress → Prop where
  | effects {p : Progress} {x : Session} (hruns : r.Runs { state := p.state } x) :
      Stir r p (p.absorb x)
  | fire (p : Progress) (f : Firing) : Stir r p (p.log f)
  | activate (p : Progress) (l : ActiveLasting) : Stir r p (p.withState (withLasting p.state l))
  | expire (p : Progress) (d : Duration) :
      Stir r p (p.withState
        { p.state with lasting := p.state.lasting.filter (fun l => l.duration ≠ d) })
  | use (p : Progress) (action : ActionId) : Stir r p (p.withState (p.state.recordUsage action))
  | reset (p : Progress) (scope : UsageScope) : Stir r p (p.withState (p.state.resetUsage scope))

/-- Several such steps, or none. -/
abbrev Stirs (r : Rules) : Progress → Progress → Prop := ReflTransGen r.Stir

/-- One step of triggers: effects run, or a firing is written down. -/
inductive Reaction (r : Rules) : Progress → Progress → Prop where
  | effects {p : Progress} {x : Session} (hruns : r.Runs { state := p.state } x) :
      Reaction r p (p.absorb x)
  | fire (p : Progress) (f : Firing) : Reaction r p (p.log f)

/-- Several such steps, or none. -/
abbrev Reacts (r : Rules) : Progress → Progress → Prop := ReflTransGen r.Reaction

/-- One step of triggers or lasting effects by themselves, to which uses are no matter. -/
inductive Ripple (r : Rules) : Progress → Progress → Prop where
  | effects {p : Progress} {x : Session} (hruns : r.Runs { state := p.state } x) :
      Ripple r p (p.absorb x)
  | fire (p : Progress) (f : Firing) : Ripple r p (p.log f)
  | activate (p : Progress) (l : ActiveLasting) : Ripple r p (p.withState (withLasting p.state l))
  | expire (p : Progress) (d : Duration) :
      Ripple r p (p.withState
        { p.state with lasting := p.state.lasting.filter (fun l => l.duration ≠ d) })

/-- Several such steps, or none. -/
abbrev Ripples (r : Rules) : Progress → Progress → Prop := ReflTransGen r.Ripple

/-- Actions are taken, one after the other: lasting effects are set up, and the use of each action
is counted. -/
inductive Takes (r : Rules) : List ActionId → Progress → Progress → Prop where
  | ripples {p q : Progress} (h : r.Ripples p q) : Takes r [] p q
  | use {action : ActionId} {actions : List ActionId} {p p' q : Progress} (h : r.Ripples p p')
      (hrest : Takes r actions (p'.withState (p'.state.recordUsage action)) q) :
      Takes r (action :: actions) p q

/-- One step of going on to the next decision. -/
inductive Advance (r : Rules) : Progress → Progress → Prop where
  | stir {p q : Progress} (h : r.Stir p q) : Advance r p q
  | skip (p : Progress) : Advance r p (p.withState (p.state.skipStuckSeat r.definition).2)
  | startTurn {p : Progress} {s : State} (hstart : r.startTurn p.state = .ok s) :
      Advance r p (p.withState s)
  | resume (p : Progress) (phase : PhaseId) :
      Advance r p (p.withState { p.state with suspended := p.state.suspended.dropLast, phase })
  | enterPhase {p : Progress} {phase : PhaseId}
      (hafter : r.definition.turn.after? p.state.phase = some phase) :
      Advance r p (p.withState ({ p.state with phase }.syncActive r.definition))

/-- Several such steps, or none. -/
abbrev GoesOn (r : Rules) : Progress → Progress → Prop := ReflTransGen r.Advance

/-- One step of going on, which counts no use; counts over a turn or a phase may start anew. -/
inductive Onward (r : Rules) : Progress → Progress → Prop where
  | ripple {p q : Progress} (h : r.Ripple p q) : Onward r p q
  | reset (p : Progress) {scope : UsageScope} (hscope : scope ≠ .game) :
      Onward r p (p.withState (p.state.resetUsage scope))
  | skip (p : Progress) : Onward r p (p.withState (p.state.skipStuckSeat r.definition).2)
  | startTurn {p : Progress} {s : State} (hstart : r.startTurn p.state = .ok s) :
      Onward r p (p.withState s)
  | resume (p : Progress) (phase : PhaseId) :
      Onward r p (p.withState { p.state with suspended := p.state.suspended.dropLast, phase })
  | enterPhase {p : Progress} {phase : PhaseId}
      (hafter : r.definition.turn.after? p.state.phase = some phase) :
      Onward r p (p.withState ({ p.state with phase }.syncActive r.definition))

/-- Several such steps, or none. -/
abbrev Onwards (r : Rules) : Progress → Progress → Prop := ReflTransGen r.Onward

/-- An attempt that succeeds comes to its result. -/
theorem attempt_eq_ok {α : Type} {p : Progress} {a : Result α} {x : α}
    (h : p.attempt a = .ok x) : a = .ok x := by
  cases a with
  | error f => cases h
  | ok y =>
    cases h
    rfl

variable {r : Rules} {p q : Progress}

/-- What stirs a progress is a step. -/
theorem Stir.step (h : r.Stir p q) : r.Step p q := by
  cases h with
  | effects hruns => exact .effects hruns
  | fire f => exact .fire p f
  | activate l => exact .activate p l
  | expire d => exact .expire p d
  | use action => exact .use p action
  | reset scope => exact .reset p scope

/-- What advances a progress is a step. -/
theorem Advance.step (h : r.Advance p q) : r.Step p q := by
  cases h with
  | stir h => exact h.step
  | skip => exact .skip p
  | startTurn hstart => exact .startTurn hstart
  | resume phase => exact .resume p phase
  | enterPhase hafter => exact .enterPhase hafter

/-- What ripples stirs. -/
theorem Ripple.stir (h : r.Ripple p q) : r.Stir p q := by
  cases h with
  | effects hruns => exact .effects hruns
  | fire f => exact .fire p f
  | activate l => exact .activate p l
  | expire d => exact .expire p d

/-- A reaction ripples. -/
theorem Reaction.ripple (h : r.Reaction p q) : r.Ripple p q := by
  cases h with
  | effects hruns => exact .effects hruns
  | fire f => exact .fire p f

/-- What leads onward advances. -/
theorem Onward.advance (h : r.Onward p q) : r.Advance p q := by
  cases h with
  | ripple h => exact .stir h.stir
  | @reset scope hscope => exact .stir (.reset p scope)
  | skip => exact .skip p
  | startTurn hstart => exact .startTurn hstart
  | resume phase => exact .resume p phase
  | enterPhase hafter => exact .enterPhase hafter

/-- Reactions are ripples. -/
theorem Reacts.ripples (h : r.Reacts p q) : r.Ripples p q := h.lift id (fun _ _ => Reaction.ripple)

/-- Ripples are stirs. -/
theorem Ripples.stirs (h : r.Ripples p q) : r.Stirs p q := h.lift id (fun _ _ => Ripple.stir)

/-- Ripples lead onward. -/
theorem Ripples.onwards (h : r.Ripples p q) : r.Onwards p q := h.lift id (fun _ _ => .ripple)

/-- What leads onward goes on. -/
theorem Onwards.goesOn (h : r.Onwards p q) : r.GoesOn p q := h.lift id (fun _ _ => Onward.advance)

/-- What goes on is played. -/
theorem GoesOn.plays (h : r.GoesOn p q) : r.Plays p q := h.lift id (fun _ _ => Advance.step)

/-- Stirs are played. -/
theorem Stirs.plays (h : r.Stirs p q) : r.Plays p q := h.lift id (fun _ _ => Stir.step)

/-- Taking actions stirs. -/
theorem Takes.stirs {actions : List ActionId} (h : r.Takes actions p q) : r.Stirs p q := by
  induction h with
  | ripples h => exact h.stirs
  | use h _ ih => exact h.stirs.trans (ReflTransGen.head (.use _ _) ih)

/-- Actions are taken in two groups, one after the other. -/
theorem Takes.append {actions others : List ActionId} {p q q' : Progress} (h : r.Takes actions p q)
    (h' : r.Takes others q q') : r.Takes (actions ++ others) p q' := by
  induction h with
  | ripples h =>
    cases h' with
    | ripples h' => exact .ripples (h.trans h')
    | use h' hrest => exact .use (h.trans h') hrest
  | use h _ ih => exact .use h (ih h')

/-! ## Triggers -/

/-- A fold over what reacts. -/
theorem foldlM_reacts {γ : Type} {f : Progress → γ → Tracked Progress}
    (hf : ∀ c p q, f p c = .ok q → r.Reacts p q) :
    ∀ {l : List γ} {p q : Progress}, l.foldlM f p = .ok q → r.Reacts p q
  | [], p, q, h => by
    cases h
    exact .refl
  | c :: l, p, q, h => by
    rw [List.foldlM_cons] at h
    obtain ⟨p', hstep, hrest⟩ := bind_eq_ok h
    exact (hf c p p' hstep).trans (foldlM_reacts hf hrest)

/-- Effects that are run under the rules are a step. -/
theorem reaction_of_runEffects {setting : Setting} (hsetting : setting.Under r) {root : String}
    {b : Bindings} {effects : List Effect} {x : Session}
    (h : runEffects setting root b effects p.state = .ok x) : r.Reaction p (p.absorb x) :=
  .effects ((reaches_of_runEffects h).runs hsetting)

/-- A trigger that fires reacts. -/
theorem fire_reacts {t : Trigger} {depth : UInt32} {e : Event} {events : List Event}
    (h : t.fire r depth e p = .ok (q, events)) : r.Reacts p q := by
  obtain ⟨x, hx, h⟩ := bind_eq_ok h
  cases h
  have hrun := reaction_of_runEffects (r.under_strict _ _ _) (attempt_eq_ok hx)
  exact (ReflTransGen.single (.fire p _)).tail hrun

/-- A trigger that reacts does so by reactions, if what comes after it does. -/
theorem react_reacts {depth : UInt32} {onward : Option (Event → Progress → Tracked Progress)}
    (honward : ∀ next, onward = some next → ∀ e p q, next e p = .ok q → r.Reacts p q)
    {e : Event} {t : Trigger} (h : t.react r depth onward e p = .ok q) : r.Reacts p q := by
  obtain ⟨fires, -, h⟩ := bind_eq_ok h
  cases fires with
  | false =>
    cases h
    exact .refl
  | true =>
    cases onward with
    | none => cases h
    | some next =>
      obtain ⟨⟨p', events⟩, hfire, h⟩ := bind_eq_ok h
      exact (fire_reacts hfire).trans (foldlM_reacts (fun e => honward next rfl e) h)

/-- The triggers of a level react, by induction on the levels that are left. -/
theorem dispatchAt_reacts :
    ∀ {left : Nat} {e : Event} {p q : Progress}, r.dispatchAt left e p = .ok q → r.Reacts p q := by
  intro left
  induction left with
  | zero =>
    intro e p q h
    exact foldlM_reacts (fun _ _ _ => react_reacts (fun _ hnext => by cases hnext)) h
  | succ left ih =>
    intro e p q h
    refine foldlM_reacts (fun _ _ _ => react_reacts (fun next hnext e p q h => ?_)) h
    cases hnext
    exact ih h

/-- Triggers to which events are put react. -/
theorem dispatch_reacts {events : List Event} (h : r.dispatch events p = .ok q) : r.Reacts p q :=
  foldlM_reacts (fun _ _ _ => dispatchAt_reacts) h

/-- Triggers to which events are put send ripples. -/
theorem dispatch_ripples {events : List Event} (h : r.dispatch events p = .ok q) : r.Ripples p q :=
  (dispatch_reacts h).ripples

/-! ## Lasting effects -/

/-- Lasting effects send ripples when they are set up. -/
theorem activateLasting_ripples {a : Action} {executor : Seat} {b : Bindings} :
    ∀ {ls : List LastingEffect} {p q : Progress} {events : List Event},
      r.activateLasting a executor b ls p = .ok (q, events) → r.Ripples p q
  | [], p, q, events, h => by
    cases h
    exact .refl
  | l :: ls, p, q, events, h => by
    obtain ⟨x, hx, h⟩ := bind_eq_ok h
    obtain ⟨⟨p', events'⟩, hrest, h⟩ := bind_eq_ok h
    cases h
    have hrun := reaction_of_runEffects (r.under_strict _ _ _) (attempt_eq_ok hx)
    exact .head hrun.ripple (.head (.activate _ _) (activateLasting_ripples hrest))

/-- Lasting effects react when they are torn down. -/
theorem tearDown_reacts :
    ∀ {ls : List ActiveLasting} {p q : Progress}, r.tearDown ls p = .ok q → r.Reacts p q
  | [], p, q, h => by
    cases h
    exact .refl
  | l :: ls, p, q, h => by
    obtain ⟨declared, -, h⟩ := bind_eq_ok h
    obtain ⟨x, hx, h⟩ := bind_eq_ok h
    obtain ⟨p', hdispatch, h⟩ := bind_eq_ok h
    have hrun := reaction_of_runEffects (r.under_strict _ _ _) (attempt_eq_ok hx)
    exact (ReflTransGen.head hrun (dispatch_reacts hdispatch)).trans (tearDown_reacts h)

/-- Lasting effects send ripples when they expire. -/
theorem expire_ripples {d : Duration} (h : r.expire d p = .ok q) : r.Ripples p q :=
  ReflTransGen.head (.expire p d) (tearDown_reacts h).ripples

/-! ## Boundaries -/

/-- How a phase has been left: its counts start anew after the triggers and lasting effects. -/
theorem leavePhase_eq_ok (h : r.leavePhase p = .ok q) :
    ∃ p', r.Ripples p p' ∧ q = p'.withState (p'.state.resetUsage .phase) := by
  obtain ⟨p₁, hdispatch, h⟩ := bind_eq_ok h
  obtain ⟨p₂, hexpire, h⟩ := bind_eq_ok h
  cases h
  exact ⟨p₂, (dispatch_ripples hdispatch).trans (expire_ripples hexpire), rfl⟩

/-- How a turn has been closed: the next one started after the triggers and lasting effects of the
old one and before the triggers of its own. -/
theorem closeTurn_eq_ok (h : r.closeTurn p = .ok q) :
    ∃ p' s, r.Ripples p p' ∧ r.startTurn (p'.state.resetUsage .turn) = .ok s ∧
      r.Ripples (p'.withState s) q := by
  obtain ⟨p₁, hdispatch, h⟩ := bind_eq_ok h
  obtain ⟨p₂, hexpire, h⟩ := bind_eq_ok h
  obtain ⟨s, hstart, h⟩ := bind_eq_ok h
  exact ⟨p₂, s, (dispatch_ripples hdispatch).trans (expire_ripples hexpire), attempt_eq_ok hstart,
    dispatch_ripples h⟩

/-- Leaving a phase leads onward. -/
theorem leavePhase_onwards (h : r.leavePhase p = .ok q) : r.Onwards p q := by
  obtain ⟨p', hripples, rfl⟩ := leavePhase_eq_ok h
  exact hripples.onwards.tail (.reset p' (by decide))

/-- A turn ends in three parts: what stirs before the next one, its start, and what stirs then. -/
theorem endTurn_eq_ok (h : r.endTurn p = .ok q) :
    ∃ p' s, r.Stirs p p' ∧ r.startTurn p'.state = .ok s ∧ r.Stirs (p'.withState s) q := by
  obtain ⟨p₁, hleave, h⟩ := bind_eq_ok h
  obtain ⟨p₂, s, hbefore, hstart, hafter⟩ := closeTurn_eq_ok h
  obtain ⟨p₀, hleft, rfl⟩ := leavePhase_eq_ok hleave
  have hclosing :=
    (hleft.stirs.tail (.reset p₀ .phase)).trans (hbefore.stirs.tail (.reset p₂ .turn))
  exact ⟨_, s, hclosing, hstart, hafter.stirs⟩

/-- Closing a turn leads onward. -/
theorem closeTurn_onwards (h : r.closeTurn p = .ok q) : r.Onwards p q := by
  obtain ⟨p', s, hbefore, hstart, hafter⟩ := closeTurn_eq_ok h
  have hscope : UsageScope.turn ≠ .game := by decide
  have hreset := hbefore.onwards.tail (.reset p' hscope)
  exact (hreset.tail (.startTurn hstart)).trans hafter.onwards

/-- Ending a turn leads onward. -/
theorem endTurn_onwards (h : r.endTurn p = .ok q) : r.Onwards p q := by
  obtain ⟨p', hleave, h⟩ := bind_eq_ok h
  exact (leavePhase_onwards hleave).trans (closeTurn_onwards h)

/-! ## Transitions -/

/-- What a transition consists of. -/
inductive Transits (r : Rules) (p q : Progress) : Prop where
  /-- The current phase is left, and the phase that was suspended last is resumed. -/
  | resume {phase : PhaseId} {p' : Progress} (hlast : p.state.suspended.getLast? = some phase)
      (hleave : r.leavePhase p = .ok p')
      (h : q = p'.withState { p'.state with suspended := p'.state.suspended.dropLast, phase })
  /-- A seat is passed over. -/
  | skip (hnone : p.state.suspended = []) (hcards : r.definition.order.cards?.isSome = true)
      (hended : (p.state.skipStuckSeat r.definition).1.turnEnded = false)
      (h : q = p.withState (p.state.skipStuckSeat r.definition).2)
  /-- A seat is passed over, and that ends the turn. -/
  | skipAll (hnone : p.state.suspended = []) (hcards : r.definition.order.cards?.isSome = true)
      (hended : (p.state.skipStuckSeat r.definition).1.turnEnded = true)
      (h : r.endTurn (p.withState (p.state.skipStuckSeat r.definition).2) = .ok q)
  /-- The current phase is left, and the phase after the one that is current then is entered. -/
  | enter {phase : PhaseId} {p' : Progress} (hnone : p.state.suspended = [])
      (hcards : r.definition.order.cards?.isSome = false) (hleave : r.leavePhase p = .ok p')
      (hafter : r.definition.turn.after? p'.state.phase = some phase)
      (h : r.enterPhase phase p' = .ok q)
  /-- The current phase is left, and no phase follows the one that is current then. -/
  | close {p' : Progress} (hnone : p.state.suspended = [])
      (hcards : r.definition.order.cards?.isSome = false) (hleave : r.leavePhase p = .ok p')
      (hafter : r.definition.turn.after? p'.state.phase = none) (h : r.closeTurn p' = .ok q)

/-- All that a transition can be. -/
theorem transits_of_transition (h : r.transition p = .ok q) : r.Transits p q := by
  unfold transition at h
  cases hlast : p.state.suspended.getLast? with
  | some phase =>
    rw [hlast] at h
    obtain ⟨p', hleave, h⟩ := bind_eq_ok h
    exact .resume hlast hleave (Except.ok.inj h).symm
  | none =>
    have hnone := List.getLast?_eq_none_iff.1 hlast
    rw [hlast] at h
    cases hcards : r.definition.order.cards?.isSome with
    | true =>
      simp only [hcards, if_true, skipSeat] at h
      cases hended : (p.state.skipStuckSeat r.definition).1.turnEnded with
      | true =>
        rw [hended, if_pos rfl] at h
        exact .skipAll hnone hcards hended h
      | false =>
        rw [hended, if_neg Bool.false_ne_true] at h
        exact .skip hnone hcards hended (Except.ok.inj h).symm
    | false =>
      simp only [hcards, Bool.false_eq_true, if_false] at h
      obtain ⟨p', hleave, h⟩ := bind_eq_ok h
      cases hafter : r.definition.turn.after? p'.state.phase with
      | some phase =>
        rw [hafter] at h
        exact .enter hnone hcards hleave hafter h
      | none =>
        rw [hafter] at h
        exact .close hnone hcards hleave hafter h

/-- Entering the next phase leads onward. -/
theorem enterPhase_onwards {phase : PhaseId}
    (hafter : r.definition.turn.after? p.state.phase = some phase)
    (h : r.enterPhase phase p = .ok q) : r.Onwards p q :=
  ReflTransGen.head (.enterPhase hafter) (dispatch_ripples h).onwards

/-- A transition leads onward. -/
theorem transition_onwards (h : r.transition p = .ok q) : r.Onwards p q := by
  cases transits_of_transition h with
  | resume _ hleave h =>
    subst h
    exact (leavePhase_onwards hleave).tail (.resume _ _)
  | skip _ _ _ h =>
    subst h
    exact .single (.skip p)
  | skipAll _ _ _ h => exact ReflTransGen.head (.skip p) (endTurn_onwards h)
  | enter _ _ hleave hafter h =>
    exact (leavePhase_onwards hleave).trans (enterPhase_onwards hafter h)
  | close _ _ hleave _ h => exact (leavePhase_onwards hleave).trans (closeTurn_onwards h)

/-- Transitions lead onward, by induction on how many may come. -/
theorem advanceWithin_onwards :
    ∀ {n : Nat} {p q : Progress}, r.advanceWithin n p = .ok q → r.Onwards p q
  | 0, p, q, h => by
    obtain ⟨decides, -, h⟩ := bind_eq_ok h
    cases decides with
    | true =>
      cases h
      exact .refl
    | false => cases h
  | n + 1, p, q, h => by
    obtain ⟨decides, -, h⟩ := bind_eq_ok h
    cases decides with
    | true =>
      cases h
      exact .refl
    | false =>
      obtain ⟨p', htransition, h⟩ := bind_eq_ok h
      exact (transition_onwards htransition).trans (advanceWithin_onwards h)

/-- What comes after a move neither uses a grant nor follows a move, and it counts no use. -/
theorem onwards_of_advance (h : r.advance p = .ok q) : r.Onwards p q := advanceWithin_onwards h

/-- Advancing to the next decision goes on. -/
theorem goesOn_of_advance (h : r.advance p = .ok q) : r.GoesOn p q := (onwards_of_advance h).goesOn

/-! ## Moves -/

/-- A move that has been made was resolved and committed, and the state it led to was stamped. -/
theorem makeMove_eq_ok {s : State} {m : Move} {res : MoveResult} (h : r.makeMove s m = .ok res) :
    ∃ x p, r.resolve s m = .ok x ∧ r.commit m s.active x = .ok p ∧ res = {
      state := p.state.stamp
      firings := p.journal.firings
      warnings := x.warnings
      trace := if r.limits.tracing then some p.journal.trace else none } := by
  unfold makeMove at h
  cases hx : r.resolve s m with
  | error st =>
    rw [hx] at h
    cases st <;> cases h
  | ok x =>
    rw [hx] at h
    dsimp only at h
    cases hp : r.commit m s.active x with
    | error breakdown =>
      rw [hp] at h
      cases h
    | ok p =>
      rw [hp] at h
      cases h
      exact ⟨x, p, rfl, hp, rfl⟩

/-- How a game has gone on after a move: it may have closed the turn before. -/
theorem goOn_eq_ok {m : Move} {p q : Progress} (h : r.goOn m p = .ok q) :
    ∃ p', (if (p.state.afterMove r.definition m).1.turnEnded then
        r.endTurn (p.withState (p.state.afterMove r.definition m).2) = .ok p'
      else p' = p.withState (p.state.afterMove r.definition m).2) ∧ r.advance p' = .ok q := by
  dsimp only [goOn] at h
  split at h
  · rename_i hended
    obtain ⟨p', hp', h⟩ := bind_eq_ok h
    exact ⟨p', by rw [if_pos hended]; exact hp', h⟩
  · rename_i hended
    exact ⟨_, by rw [if_neg hended], h⟩

/-- Taking an action takes that action. -/
theorem take_takes {a : Action} {executor : Seat} {params : Dict Selection} {events : List Event}
    (h : r.take a executor params p = .ok (q, events)) : r.Takes [a.id] p q := by
  obtain ⟨⟨p', events'⟩, hactivate, h⟩ := bind_eq_ok h
  cases h
  exact .use (activateLasting_ripples hactivate) (.ripples .refl)

/-- A special activity is taken if there is one, and the move carries it. -/
theorem takeSpecial_takes {m : Move} {x : Resolution} {events : List Event}
    (hspecial : x.special.isSome = m.compound.isSome)
    (h : r.takeSpecial m x p = .ok (q, events)) :
    r.Takes (x.special.map (fun e => e.1.id)).toList p q := by
  unfold takeSpecial at h
  cases hx : x.special with
  | none =>
    rw [hx] at h
    cases h
    exact .ripples .refl
  | some e =>
    rw [hx] at h hspecial
    obtain ⟨c, hc⟩ := Option.isSome_iff_exists.1 hspecial.symm
    rw [hc] at h
    exact take_takes h

/-- What is resolved has a special activity exactly if the move carries one. -/
theorem special_of_resolve {s : State} {m : Move} {x : Resolution} (h : r.resolve s m = .ok x) :
    x.special.isSome = m.compound.isSome := by
  obtain ⟨a, grant, host, special, y, -, -, -, -, -, hspecial, -, rfl⟩ := resolve_eq_ok_iff.1 h
  simp only [Option.isSome_map]
  unfold planCompound at hspecial
  cases hc : m.compound with
  | none =>
    rw [hc] at hspecial
    cases hspecial
    rfl
  | some c =>
    rw [hc] at hspecial
    obtain ⟨planned, -, hspecial⟩ := bind_eq_ok hspecial
    cases hspecial
    rfl

/-- A move resolves by a run of effects from the state in which it is made. -/
theorem runs_of_resolve {s : State} {m : Move} {x : Resolution} (h : r.resolve s m = .ok x) :
    r.Runs { state := s } x.session := by
  have hresolved := r.resolve_asks s m
  rw [h] at hresolved
  exact hresolved.runs

/-- How the actions of a resolved move have been taken: the grant that covers it was used last. -/
theorem takeActions_takes {s : State} {m : Move} {x : Resolution}
    (hruns : r.Runs { state := s } x.session) (hwith : x.special.isSome = m.compound.isSome)
    {events : List Event} (h : r.takeActions m x = .ok (q, events)) :
    ∃ p, r.Takes (actionsTaken x) { state := s } p ∧ q = match x.grant with
      | some id => p.withState (p.state.consumeGrant id)
      | none => p := by
  obtain ⟨⟨p₁, hostEvents⟩, hhost, h⟩ := bind_eq_ok h
  obtain ⟨⟨p₂, specialEvents⟩, hspecial, h⟩ := bind_eq_ok h
  have hresolved : r.Ripple { state := s } (Progress.absorb { state := s } x.session) :=
    .effects hruns
  have htaken := (take_takes hhost).append (takeSpecial_takes hwith hspecial)
  cases h
  exact ⟨p₂, Takes.append (.ripples (.single hresolved)) htaken, rfl⟩

/-- Triggers that react to a move send ripples. -/
theorem reactTo_ripples {x : Resolution} {mover : Seat} {events : List Event}
    (h : r.reactTo x mover events p = .ok q) : r.Ripples p q := by
  obtain ⟨p', hevents, hresolved⟩ := bind_eq_ok h
  exact (dispatch_ripples hevents).trans (dispatch_ripples hresolved)

/-- Triggers that react to a move stir. -/
theorem reactTo_stirs {x : Resolution} {mover : Seat} {events : List Event}
    (h : r.reactTo x mover events p = .ok q) : r.Stirs p q := (reactTo_ripples h).stirs

/-- The actions of a resolved move are played from the state in which it is made. -/
theorem takeActions_plays {s : State} {m : Move} {x : Resolution} (hx : r.resolve s m = .ok x)
    {events : List Event} (h : r.takeActions m x = .ok (q, events)) : r.Plays { state := s } q := by
  obtain ⟨p, htakes, rfl⟩ := takeActions_takes (runs_of_resolve hx) (special_of_resolve hx) h
  cases x.grant with
  | none => exact htakes.stirs.plays
  | some id => exact htakes.stirs.plays.tail (.consume p id)

/-- Going on after a move is played. -/
theorem goOn_plays {m : Move} (h : r.goOn m p = .ok q) : r.Plays p q := by
  obtain ⟨p', hclosed, hadvance⟩ := goOn_eq_ok h
  have hadvanced := (goesOn_of_advance hadvance).plays
  refine .head (.follow p m) (ReflTransGen.trans ?_ hadvanced)
  split at hclosed
  · exact (endTurn_onwards hclosed).goesOn.plays
  · rw [hclosed]

/-- Committing a resolved move is played from the state in which it is made. -/
theorem commit_plays {s : State} {m : Move} {mover : Seat} {x : Resolution}
    (hx : r.resolve s m = .ok x) (h : r.commit m mover x = .ok q) : r.Plays { state := s } q := by
  obtain ⟨⟨p₁, events⟩, htake, h⟩ := bind_eq_ok h
  obtain ⟨p₂, hreact, h⟩ := bind_eq_ok h
  exact ((takeActions_plays hx htake).trans (reactTo_stirs hreact).plays).trans (goOn_plays h)

/-- A move that has been made has been played step by step, and then the state was stamped. -/
theorem plays_of_makeMove {s : State} {m : Move} {res : MoveResult}
    (h : r.makeMove s m = .ok res) :
    ∃ p, r.Plays { state := s } p ∧ res.state = p.state.stamp ∧
      res.trace = if r.limits.tracing then some p.journal.trace else none := by
  obtain ⟨x, p, hx, hcommit, rfl⟩ := makeMove_eq_ok h
  exact ⟨p, commit_plays hx hcommit, rfl, rfl⟩

end Rules

end Tabletop
