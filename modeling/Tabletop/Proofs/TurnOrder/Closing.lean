import Tabletop.Proofs.Play.Phases

/-!
# How a turn is closed

A turn is closed in the course of a move: by the move itself, once it has been written down in the
turn order, or on the way to the next decision, when a card is over or no phase follows.  From there
on it always goes the same way.  The current phase is left, an event tells that the turn ends, the
lasting effects of the turn end, the turn order is rotated, and an event tells that the next turn
starts.

The two events name the seats that are active at these moments.  The first one is named after the
bookkeeping of the turn order, which may have handed over to another seat already; the second one is
the seat that the order designates when the rotation is done.

Main statements: `Rules.boundary_of_endTurn`, all that the end of a turn consists of, and
`Rules.exists_closesTurn`, that no turn passes without being closed.
-/

namespace Tabletop

namespace Rules

variable {r : Rules} {p p' q : Progress} {s : State} {m : Move}

/-! ## The end of a turn -/

/-- The current phase is left, an event tells that the turn ends, its lasting effects end, and an
event tells that the next turn has started out of the last state of the old one. -/
inductive Boundary (r : Rules) (p : Progress) : Event → State → Event → Progress → Prop where
  | intro {p₁ p₂ p₃ q : Progress} {s : State} (hleave : r.leavePhase p = .ok p₁)
      (hended : r.dispatch [.turnEnd p₁.state.turn p₁.state.active] p₁ = .ok p₂)
      (hexpire : r.expire .turn p₂ = .ok p₃)
      (hstart : r.startTurn (p₃.state.resetUsage .turn) = .ok s)
      (hstarted : r.dispatch [.phaseEnter s.phase, .turnStart s.turn s.active] (p₃.withState s) =
        .ok q) :
      Boundary r p (.turnEnd p₁.state.turn p₁.state.active) (p₃.state.resetUsage .turn)
        (.turnStart s.turn s.active) q

/-- The end of a turn consists of what `Boundary` names, and nothing else. -/
theorem boundary_of_endTurn (h : r.endTurn p = .ok q) :
    ∃ ended last started, r.Boundary p ended last started q := by
  obtain ⟨p₁, hleave, h⟩ := bind_eq_ok h
  obtain ⟨p₂, hended, h⟩ := bind_eq_ok h
  obtain ⟨p₃, hexpire, h⟩ := bind_eq_ok h
  obtain ⟨s, hstart, h⟩ := bind_eq_ok h
  exact ⟨_, _, _, .intro hleave hended hexpire (attempt_eq_ok hstart) h⟩

/-- Leaving a phase stirs the turn order at most. -/
theorem leavePhase_stirs (h : r.leavePhase p = .ok q) : p.state.Stirs q.state := by
  obtain ⟨p', hripples, rfl⟩ := leavePhase_eq_ok h
  exact hripples.stirs.state.trans (.of_eq rfl rfl rfl)

namespace Boundary

variable {ended started : Event} {last : State}

/-- The event at the end of a turn names the seat that is active when the turn begins to end. -/
theorem ended_seat? (h : r.Boundary p ended last started q) :
    ended.seat? = some p.state.active := by
  cases h with
  | intro hleave => exact congrArg some (leavePhase_stirs hleave).active

/-- Until the turn has ended, the turn order is only stirred. -/
theorem stirs (h : r.Boundary p ended last started q) : p.state.Stirs last := by
  cases h with
  | intro hleave hended hexpire =>
    have hreacted :=
      (dispatch_ripples hended).stirs.state.trans (expire_ripples hexpire).stirs.state
    exact (leavePhase_stirs hleave).trans (hreacted.trans (.of_eq rfl rfl rfl))

/-- The event at the start of a turn names the seat that the rotation has made active. -/
theorem started_seat? (h : r.Boundary p ended last started q) :
    started.seat? = some (last.rotate r.definition).active := by
  cases h with
  | intro _ _ _ hstart => exact congrArg some (startTurn_rotates hstart).active

end Boundary

/-! ## Closing a turn -/

/-- A transition closes the turn, which begins to end in some progress. -/
inductive Ends (r : Rules) (p : Progress) : Progress → Progress → Prop where
  /-- A seat has been passed over, and that has ended the card. -/
  | skip {q : Progress} (hnone : p.state.suspended = [])
      (hcards : r.definition.order.cards?.isSome = true)
      (hended : (p.state.skipStuckSeat r.definition).1.turnEnded = true)
      (h : r.endTurn (p.withState (p.state.skipStuckSeat r.definition).2) = .ok q) :
      Ends r p (p.withState (p.state.skipStuckSeat r.definition).2) q
  /-- The current phase has been left, and no phase follows. -/
  | phases {p' q : Progress} (hnone : p.state.suspended = [])
      (hcards : r.definition.order.cards?.isSome = false) (hleave : r.leavePhase p = .ok p')
      (hafter : r.definition.turn.after? p'.state.phase = none) (h : r.closeTurn p' = .ok q) :
      Ends r p p q

/-- Where a transition closes the turn, the turn ends from the named progress on. -/
theorem Ends.endTurn (h : r.Ends p p' q) : r.endTurn p' = .ok q := by
  cases h with
  | skip _ _ _ h => exact h
  | phases _ _ hleave _ h => exact bind_ok hleave h

/-- Without cards a turn begins to end where the transition sets out. -/
theorem Ends.eq (hcards : r.definition.order.cards?.isSome = false) (h : r.Ends p p' q) :
    p' = p := by
  cases h with
  | skip _ hsome =>
    rw [hcards] at hsome
    cases hsome
  | phases => rfl

/-- A transition closes the turn or leaves the game in it.  In an order without cards, if it does
not close the turn, only the triggers stir the state, except that the active seat may be brought in
line. -/
theorem ends_of_transition (h : r.transition p = .ok q) :
    (∃ p', r.Ends p p' q) ∨ q.state.turn = p.state.turn ∧
      (r.definition.order.cards?.isSome = false → ∃ u, p.state.Stirs u ∧
        (u.Stirs q.state ∨ (u.syncActive r.definition).Stirs q.state)) := by
  cases transits_of_transition h with
  | resume _ hleave h =>
    obtain ⟨pushed, hpushed⟩ := leavePhase_interrupted hleave
    subst h
    exact .inr ⟨hpushed.turn, fun _ => ⟨_, leavePhase_stirs hleave, .inl (.of_eq rfl rfl rfl)⟩⟩
  | skip _ hcards _ h =>
    have hskipped := State.SameMoment.skipStuckSeat p.state r.definition
    subst h
    exact .inr ⟨hskipped.turn, fun hno => absurd hcards (by simp [hno])⟩
  | skipAll hnone hcards hended h => exact .inl ⟨_, .skip hnone hcards hended h⟩
  | @enter phase p' _ _ hleave _ h =>
    obtain ⟨pushed, hpushed⟩ := leavePhase_interrupted hleave
    have hentered := dispatch_ripples h
    obtain ⟨more, hmore⟩ := hentered.interrupted
    have hsynced := State.SameMoment.syncActive { p'.state with phase } r.definition
    have hstirs := (leavePhase_stirs hleave).trans
      (.of_eq (t := { p'.state with phase }) rfl rfl rfl)
    exact .inr ⟨hmore.turn.trans (hsynced.turn.trans hpushed.turn),
      fun _ => ⟨_, hstirs, .inr hentered.stirs.state⟩⟩
  | close hnone hcards hleave hafter h => exact .inl ⟨p, .phases hnone hcards hleave hafter h⟩

/-- A turn is closed in the course of a move, on behalf of a seat; it begins to end in some
progress. -/
inductive ClosesTurn (r : Rules) (s : State) (m : Move) : Seat → Progress → Progress → Prop where
  /-- The seat has moved, and that ends the turn. -/
  | move {x : Resolution} {p q : Progress} (hx : r.resolve s m = .ok x)
      (hcarried : r.carryOut m s.active x = .ok p)
      (hended : (p.state.afterMove r.definition m).1.turnEnded = true)
      (h : r.endTurn (p.withState (p.state.afterMove r.definition m).2) = .ok q) :
      ClosesTurn r s m s.active (p.withState (p.state.afterMove r.definition m).2) q
  /-- The active seat cannot move, and a transition closes the turn. -/
  | pass {p p' q : Progress} (hcomes : r.ComesTo s m p)
    (hundecided : r.atDecision p.state = .ok false)
      (hends : r.Ends p p' q) : ClosesTurn r s m p.state.active p' q

/-- Where a turn is closed in the course of a move, it ends from the named progress on. -/
theorem ClosesTurn.endTurn {seat : Seat} (h : r.ClosesTurn s m seat p q) : r.endTurn p = .ok q := by
  cases h with
  | move _ _ _ h => exact h
  | pass _ _ hends => exact hends.endTurn

/-- Transitions are continued by one more, out of a state in which there is nothing to decide. -/
theorem Passes.tail {k : Nat} (h : r.Passes k p p') (hundecided : r.atDecision p'.state = .ok false)
    (htransition : r.transition p' = .ok q) : r.Passes (k + 1) p q := by
  induction h with
  | none => exact .next hundecided htransition (.none q)
  | next hfirst hstep _ ih => exact .next hfirst hstep (ih hundecided htransition)

/-- After a move the game is led on by one more transition, if there is nothing to decide yet. -/
theorem ComesTo.next (h : r.ComesTo s m p) (hundecided : r.atDecision p.state = .ok false)
    (htransition : r.transition p = .ok q) : r.ComesTo s m q := by
  obtain ⟨x, p₁, p₂, k, hx, hcarried, hout, hpasses⟩ := h
  exact ⟨x, p₁, p₂, k + 1, hx, hcarried, hout, hpasses.tail hundecided htransition⟩

/-- On the way to the next decision no turn passes without being closed. -/
theorem exists_closesTurn_of_passes {k : Nat} (h : r.Passes k p q) (hcomes : r.ComesTo s m p)
    (hturn : q.state.turn ≠ p.state.turn) : ∃ seat p' q', r.ClosesTurn s m seat p' q' := by
  induction h with
  | none => exact absurd rfl hturn
  | next hundecided htransition _ ih =>
    rcases ends_of_transition htransition with ⟨p', hends⟩ | ⟨hsame, -⟩
    · exact ⟨_, _, _, .pass hcomes hundecided hends⟩
    · rw [← hsame] at hturn
      exact ih (hcomes.next hundecided htransition) hturn

/-- No turn passes in the course of a move without being closed. -/
theorem exists_closesTurn (h : r.ComesTo s m q) (hturn : q.state.turn ≠ s.turn) :
    ∃ seat p' q', r.ClosesTurn s m seat p' q' := by
  obtain ⟨x, p, p', k, hx, hcarried, hout, hpasses⟩ := h
  obtain ⟨pushed, hpushed⟩ := carryOut_interrupted hx hcarried
  have hfollowed := State.SameMoment.afterMove p.state r.definition m
  have hcomes : r.ComesTo s m p' := ⟨x, p, p', 0, hx, hcarried, hout, .none p'⟩
  rcases setsOut_iff.1 hout with ⟨hended, hout⟩ | ⟨-, rfl⟩
  · exact ⟨_, _, _, .move hx hcarried hended hout⟩
  · rw [← hfollowed.turn.trans hpushed.turn] at hturn
    exact exists_closesTurn_of_passes hpasses hcomes hturn

end Rules

end Tabletop
