import Tabletop.Proofs.TurnOrder.Course

/-!
# Phases under way

The suspended phases and the current one on top of them make up a line.  Effects can make it longer
by interrupts and do nothing else to it, whoever runs them; only the transitions on the way to the
next decision take it down again.

A transition leaves the current phase first, and the effects of that can bring interrupts on top of
it.  Then the transition goes on all the same: where a suspended phase is on top, it is the one that
has been on top before; where nothing has been suspended, the next phase is sought after the one
that is current by then.

Main statements: `Rules.shift_of_transition`, all that a transition can do to the phases, and
`Rules.SetsOut.phases`, what has become of them when the game sets out for the next decision.
-/

namespace Tabletop

/-! ## The line -/

namespace State

variable {s s' s'' : State} {t : TurnStructure}

/-- The phases under way: the suspended ones, the last one on top, and then the current one. -/
def line (s : State) : List PhaseId := s.suspended ++ [s.phase]

/-- The line of phases without the current one is the suspended ones. -/
theorem dropLast_line (s : State) : s.line.dropLast = s.suspended := List.dropLast_concat

/-- One more phase is under way than are suspended. -/
theorem length_line (s : State) : s.line.length = s.suspended.length + 1 := List.length_append

/-- The first phase under way is the base. -/
theorem head?_line (s : State) : s.line.head? = some s.basePhase := by
  unfold line basePhase
  cases s.suspended <;> rfl

/-- Lines of phases are the same exactly if their suspended and current phases are. -/
theorem line_eq_iff : s.line = s'.line ↔ s.suspended = s'.suspended ∧ s.phase = s'.phase := by
  constructor
  · intro h
    obtain ⟨hsuspended, hphase⟩ := List.append_inj' h rfl
    exact ⟨hsuspended, List.singleton_inj.1 hphase⟩
  · rintro ⟨hsuspended, hphase⟩
    rw [line, line, hsuspended, hphase]

/-- In the same moment the same phases are under way. -/
theorem SameMoment.line (h : s.SameMoment s') : s'.line = s.line :=
  line_eq_iff.2 ⟨h.suspended, h.phase⟩

/-- In the same turn interrupts have come on top of the phases under way. -/
structure Interrupted (t : TurnStructure) (pushed : List PhaseId) (s s' : State) : Prop where
  line : s'.line = s.line ++ pushed
  declared : ∀ phase ∈ pushed, t.isInterrupt phase = true
  turn : s'.turn = s.turn

namespace Interrupted

variable {pushed pushed' : List PhaseId}

/-- Interrupts may come in two groups. -/
theorem trans (h : Interrupted t pushed s s') (h' : Interrupted t pushed' s' s'') :
    Interrupted t (pushed ++ pushed') s s'' where
  line := by rw [h'.line, h.line, List.append_assoc]
  declared phase hphase := (List.mem_append.1 hphase).elim (h.declared phase) (h'.declared phase)
  turn := h'.turn.trans h.turn

/-- Interrupts leave the base of the phases. -/
theorem basePhase (h : Interrupted t pushed s s') : s'.basePhase = s.basePhase := by
  have hhead : s'.line.head? = s.line.head? := by
    rw [h.line, List.head?_append, head?_line]
    rfl
  rw [head?_line, head?_line] at hhead
  exact Option.some.inj hhead

/-- The interrupt that has come last is current. -/
theorem phase_mem (h : Interrupted t pushed s s') (hpushed : pushed ≠ []) : s'.phase ∈ pushed := by
  have hlast : pushed.getLast? = some s'.phase := by
    rw [← List.getLast?_append_of_ne_nil s.line hpushed, ← h.line, State.line, List.getLast?_concat]
  exact List.mem_of_getLast? hlast

/-- Without interrupts the phases are the same. -/
theorem same (h : Interrupted t [] s s') : s'.suspended = s.suspended ∧ s'.phase = s.phase := by
  have hline := h.line
  rw [List.append_nil] at hline
  exact line_eq_iff.1 hline

/-- The line has become longer exactly if a phase has been suspended. -/
theorem suspended_ne_iff (h : Interrupted t pushed s s') :
    s'.suspended ≠ s.suspended ↔ pushed ≠ [] := by
  refine not_congr ⟨fun hsame => ?_, fun hnone => ?_⟩
  · have hlength := congrArg List.length h.line
    rw [List.length_append, length_line, length_line, hsame] at hlength
    exact List.length_eq_zero_iff.1 (by omega)
  · subst hnone
    exact h.same.1

end Interrupted

/-- Where phases and turn are the same, no interrupt has come. -/
theorem Interrupted.of_eq (hsuspended : s'.suspended = s.suspended) (hphase : s'.phase = s.phase)
    (hturn : s'.turn = s.turn) : Interrupted t [] s s' :=
  ⟨by rw [List.append_nil, line_eq_iff.2 ⟨hsuspended, hphase⟩], nofun, hturn⟩

/-- In the same moment no interrupt has come. -/
theorem SameMoment.interrupted (h : s.SameMoment s') : Interrupted t [] s s' :=
  .of_eq h.suspended h.phase h.turn

/-- Writing a variable leaves the phases. -/
theorem setVar_phase (s : State) (scope : VarScope) (name : String) (x : Int64) :
    (s.setVar scope name x).phase = s.phase ∧ (s.setVar scope name x).suspended = s.suspended := by
  cases scope <;> exact ⟨rfl, rfl⟩

end State

/-! ## Effects -/

/-- An effect can bring an interrupt, and otherwise the phases stay as they are. -/
theorem Alters.interrupted {s : Setting} {x y : Session} (h : Alters s x y) :
    ∃ pushed, State.Interrupted s.game.definition.turn pushed x.state y.state := by
  cases h with
  | @interrupt _ _ phase hphase =>
    exact ⟨[phase], rfl, fun _ h => List.mem_singleton.1 h ▸ hphase, rfl⟩
  | storeVar hslot n =>
    refine ⟨[], ?_⟩
    unfold Site.storeVar
    split
    · exact .of_eq rfl rfl rfl
    · rw [Site.note_state]
      exact .of_eq (State.setVar_phase _ _ _ _).2 (State.setVar_phase _ _ _ _).1
        (State.Kept.setVar _ _ _ _).turn
  | moveBlock =>
    refine ⟨[], ?_⟩
    rw [Site.arriveAll_state]
    exact .of_eq rfl rfl rfl
  | moveAcross =>
    refine ⟨[], ?_⟩
    unfold Site.arrive
    rw [Site.note_state]
    exact .of_eq rfl rfl rfl
  | moveWithin => exact ⟨[], .of_eq rfl rfl rfl⟩
  | roll => exact ⟨[], .of_eq rfl rfl rfl⟩
  | grant => exact ⟨[], .of_eq rfl rfl rfl⟩
  | override => exact ⟨[], .of_eq rfl rfl rfl⟩
  | _ =>
    refine ⟨[], ?_⟩
    rw [Site.note_state]
    exact .of_eq rfl rfl rfl

/-- Runs of effects bring interrupts and do nothing else to the phases. -/
theorem Reaches.interrupted {s : Setting} {x y : Session} (h : Reaches s x y) :
    ∃ pushed, State.Interrupted s.game.definition.turn pushed x.state y.state := by
  induction h with
  | refl => exact ⟨[], .of_eq rfl rfl rfl⟩
  | tail _ hstep ih =>
    cases hstep with
    | spend => exact ih
    | alter halters =>
      obtain ⟨pushed, hpushed⟩ := ih
      obtain ⟨more, hmore⟩ := halters.interrupted
      exact ⟨_, hpushed.trans hmore⟩

namespace Rules

variable {r : Rules} {p q : Progress} {s : State} {m : Move}

/-- Runs of effects under the rules bring interrupts and do nothing else to the phases. -/
theorem Runs.interrupted {x y : Session} (h : r.Runs x y) :
    ∃ pushed, State.Interrupted r.definition.turn pushed x.state y.state := by
  induction h with
  | refl => exact ⟨[], .of_eq rfl rfl rfl⟩
  | tail _ hstep ih =>
    obtain ⟨pushed, hpushed⟩ := ih
    obtain ⟨setting, hunder, hstep⟩ := hstep
    obtain ⟨more, hmore⟩ := Reaches.interrupted (.single hstep)
    rw [hunder.game] at hmore
    exact ⟨_, hpushed.trans hmore⟩

/-- What ripples after an event brings interrupts and does nothing else to the phases. -/
theorem Ripple.interrupted (h : r.Ripple p q) :
    ∃ pushed, State.Interrupted r.definition.turn pushed p.state q.state := by
  cases h with
  | effects hruns => exact hruns.interrupted
  | fire f => exact ⟨[], .of_eq rfl rfl rfl⟩
  | activate l => exact ⟨[], .of_eq rfl rfl rfl⟩
  | expire d => exact ⟨[], .of_eq rfl rfl rfl⟩

/-- Triggers and lasting effects can bring interrupts, and otherwise the phases stay as they are. -/
theorem Ripples.interrupted (h : r.Ripples p q) :
    ∃ pushed, State.Interrupted r.definition.turn pushed p.state q.state := by
  induction h with
  | refl => exact ⟨[], .of_eq rfl rfl rfl⟩
  | tail _ hstep ih =>
    obtain ⟨pushed, hpushed⟩ := ih
    obtain ⟨more, hmore⟩ := hstep.interrupted
    exact ⟨_, hpushed.trans hmore⟩

/-- Taking actions brings interrupts and does nothing else to the phases. -/
theorem Takes.interrupted {actions : List ActionId} (h : r.Takes actions p q) :
    ∃ pushed, State.Interrupted r.definition.turn pushed p.state q.state := by
  induction h with
  | ripples h => exact h.interrupted
  | @use action actions p p' q h _ ih =>
    obtain ⟨pushed, hpushed⟩ := h.interrupted
    obtain ⟨more, hmore⟩ := ih
    have hcounted : State.Interrupted r.definition.turn [] p'.state
        (p'.withState (p'.state.recordUsage action)).state := .of_eq rfl rfl rfl
    exact ⟨_, hpushed.trans (hcounted.trans hmore)⟩

/-- What a move does before it is written down can bring interrupts, and otherwise the phases stay
as they are. -/
theorem carryOut_interrupted {x : Resolution} {mover : Seat} (hx : r.resolve s m = .ok x)
    (h : r.carryOut m mover x = .ok p) :
    ∃ pushed, State.Interrupted r.definition.turn pushed s p.state := by
  obtain ⟨⟨p₁, events⟩, htake, hreact⟩ := bind_eq_ok h
  obtain ⟨p₀, htakes, rfl⟩ := takeActions_takes (runs_of_resolve hx) (special_of_resolve hx) htake
  obtain ⟨pushed, hpushed⟩ := htakes.interrupted
  obtain ⟨more, hmore⟩ := (reactTo_ripples hreact).interrupted
  refine ⟨pushed ++ more, hpushed.trans ?_⟩
  cases hgrant : x.grant with
  | none =>
    rw [hgrant] at hmore
    exact hmore
  | some id =>
    rw [hgrant] at hmore
    have hconsumed :=
      (State.SameMoment.consumeGrant p₀.state id).interrupted (t := r.definition.turn)
    exact hconsumed.trans hmore

/-! ## Transitions -/

/-- Leaving a phase brings interrupts and does nothing else to the phases. -/
theorem leavePhase_interrupted (h : r.leavePhase p = .ok q) :
    ∃ pushed, State.Interrupted r.definition.turn pushed p.state q.state := by
  obtain ⟨p', hripples, rfl⟩ := leavePhase_eq_ok h
  obtain ⟨pushed, hpushed⟩ := hripples.interrupted
  exact ⟨pushed, hpushed.line, hpushed.declared, hpushed.turn⟩

/-- Leaving the current phase suspends it: its effects bring interrupts on top of it. -/
def Disturbed (r : Rules) (p : Progress) : Prop :=
  ∃ q, r.leavePhase p = .ok q ∧ q.state.suspended ≠ p.state.suspended

/-- Leaving a phase is disturbed exactly if interrupts come. -/
theorem disturbed_iff {pushed : List PhaseId} (h : r.leavePhase p = .ok q)
    (hpushed : State.Interrupted r.definition.turn pushed p.state q.state) :
    r.Disturbed p ↔ pushed ≠ [] := by
  rw [← hpushed.suspended_ne_iff]
  constructor
  · rintro ⟨q', hq', hsuspended⟩
    obtain rfl : q = q' := Except.ok.inj (h.symm.trans hq')
    exact hsuspended
  · exact fun hsuspended => ⟨q, h, hsuspended⟩

end Rules

/-- The next turn has started with its first phase, perhaps with interrupts on top of it. -/
structure State.NextTurn (d : Definition) (s s' : State) : Prop where
  turn : s'.turn = s.turn + 1
  line : ∃ first pushed, d.firstPhase? = some first ∧ s'.line = first :: pushed ∧
    ∀ phase ∈ pushed, d.turn.isInterrupt phase = true

/-- What happens within a turn before its end does not change which turn is next. -/
theorem State.NextTurn.of_turn {d : Definition} {s s' s'' : State} (h : s'.NextTurn d s'')
    (hturn : s'.turn = s.turn) : s.NextTurn d s'' where
  turn := by rw [h.turn, hturn]
  line := h.line

/-- The next turn has another number. -/
theorem State.NextTurn.turn_ne {d : Definition} {s s' : State} (h : s.NextTurn d s') :
    s'.turn ≠ s.turn := by
  rw [h.turn]
  simp

namespace Rules

variable {r : Rules} {p q : Progress} {s : State} {m : Move}

/-- Closing a turn leads to the next one. -/
theorem closeTurn_nextTurn (h : r.closeTurn p = .ok q) :
    p.state.NextTurn r.definition q.state := by
  obtain ⟨p', s, hbefore, hstart, hafter⟩ := closeTurn_eq_ok h
  obtain ⟨before, hbefore⟩ := hbefore.interrupted
  obtain ⟨pushed, hpushed⟩ := hafter.interrupted
  obtain ⟨first, hfirst, hstart⟩ := bind_eq_ok hstart
  cases hstart
  refine ⟨?_, first, pushed, orFault_eq_ok hfirst, hpushed.line, hpushed.declared⟩
  have hrotated := (State.SameMoment.rotate (p'.state.resetUsage .turn) r.definition).turn
  rw [hpushed.turn]
  change ((p'.state.resetUsage .turn).rotate r.definition).turn + 1 = _
  rw [hrotated]
  exact congrArg (· + 1) hbefore.turn

/-- Ending a turn leads to the next one. -/
theorem endTurn_nextTurn (h : r.endTurn p = .ok q) : p.state.NextTurn r.definition q.state := by
  obtain ⟨p', hleave, h⟩ := bind_eq_ok h
  obtain ⟨pushed, hpushed⟩ := leavePhase_interrupted hleave
  exact (closeTurn_nextTurn h).of_turn hpushed.turn

/-- What a transition does to the phases. -/
inductive Shift (r : Rules) (p q : Progress) : Prop where
  /-- The current phase is left, and the phase that was suspended last is resumed. -/
  | resume {phase : PhaseId} {p' : Progress} {pushed : List PhaseId}
      (hlast : p.state.suspended.getLast? = some phase) (hleave : r.leavePhase p = .ok p')
      (hpushed : State.Interrupted r.definition.turn pushed p.state p'.state)
      (hsuspended : q.state.suspended = p'.state.suspended.dropLast)
      (hphase : q.state.phase = phase) (hturn : q.state.turn = p.state.turn) : Shift r p q
  /-- A seat is passed over. -/
  | pass (hnone : p.state.suspended = []) (hcards : r.definition.order.cards?.isSome = true)
      (hsame : p.state.SameMoment q.state) : Shift r p q
  /-- A seat is passed over, and that ends the turn. -/
  | passAll (hnone : p.state.suspended = []) (hcards : r.definition.order.cards?.isSome = true)
      (hnext : p.state.NextTurn r.definition q.state) : Shift r p q
  /-- The current phase is left, and the phase after the one that is current then is entered. -/
  | enter {phase : PhaseId} {p' : Progress} {pushed more : List PhaseId}
      (hnone : p.state.suspended = []) (hcards : r.definition.order.cards?.isSome = false)
      (hleave : r.leavePhase p = .ok p')
      (hpushed : State.Interrupted r.definition.turn pushed p.state p'.state)
      (hafter : r.definition.turn.after? p'.state.phase = some phase)
      (hline : q.state.line = p'.state.suspended ++ phase :: more)
      (hmore : ∀ phase ∈ more, r.definition.turn.isInterrupt phase = true)
      (hturn : q.state.turn = p.state.turn) : Shift r p q
  /-- The current phase is left, and no phase follows the one that is current then. -/
  | close {p' : Progress} {pushed : List PhaseId}
      (hnone : p.state.suspended = []) (hcards : r.definition.order.cards?.isSome = false)
      (hleave : r.leavePhase p = .ok p')
      (hpushed : State.Interrupted r.definition.turn pushed p.state p'.state)
      (hafter : r.definition.turn.after? p'.state.phase = none)
      (hnext : p.state.NextTurn r.definition q.state) : Shift r p q

/-- All that a transition can do to the phases. -/
theorem shift_of_transition (h : r.transition p = .ok q) : r.Shift p q := by
  have hskipped := State.SameMoment.skipStuckSeat p.state r.definition
  cases transits_of_transition h with
  | resume hlast hleave h =>
    obtain ⟨pushed, hpushed⟩ := leavePhase_interrupted hleave
    subst h
    exact .resume hlast hleave hpushed rfl rfl hpushed.turn
  | skip hnone hcards _ h =>
    subst h
    exact .pass hnone hcards hskipped
  | skipAll hnone hcards _ h =>
    exact .passAll hnone hcards ((endTurn_nextTurn h).of_turn hskipped.turn)
  | @enter phase p' hnone hcards hleave hafter h =>
    obtain ⟨pushed, hpushed⟩ := leavePhase_interrupted hleave
    have hentered := State.SameMoment.syncActive { p'.state with phase } r.definition
    obtain ⟨more, hmore⟩ := (dispatch_ripples h).interrupted
    refine .enter hnone hcards hleave hpushed hafter ?_ hmore.declared ?_
    · rw [hmore.line]
      show State.line (State.syncActive _ _) ++ more = _
      rw [hentered.line, State.line, List.append_assoc]
      rfl
    · exact hmore.turn.trans (hentered.turn.trans hpushed.turn)
  | close hnone hcards hleave hafter h =>
    obtain ⟨pushed, hpushed⟩ := leavePhase_interrupted hleave
    exact .close hnone hcards hleave hpushed hafter ((closeTurn_nextTurn h).of_turn hpushed.turn)

/-! ## On the way to the next decision -/

/-- When the game sets out, it is still where the move was made, but for interrupts, or the next
turn has started. -/
theorem SetsOut.phases {x : Resolution} {mover : Seat} (hx : r.resolve s m = .ok x)
    (hcarried : r.carryOut m mover x = .ok p) (h : r.SetsOut m p q) :
    (∃ pushed, State.Interrupted r.definition.turn pushed s q.state) ∨
      s.NextTurn r.definition q.state := by
  obtain ⟨pushed, hpushed⟩ := carryOut_interrupted hx hcarried
  have hfollowed := State.SameMoment.afterMove p.state r.definition m
  rcases setsOut_iff.1 h with ⟨-, h⟩ | ⟨-, rfl⟩
  · exact .inr ((endTurn_nextTurn h).of_turn (hfollowed.turn.trans hpushed.turn))
  · exact .inl ⟨_, hpushed.trans hfollowed.interrupted⟩

end Rules

end Tabletop
