import Tabletop.Proofs.TurnOrder.Submission

/-!
# Whose turn it was

When a turn is closed, an event tells whose turn it was, and triggers react in the name of that
seat.  The event names the seat that is active when the turn begins to end.  In round robin, in a
fixed order and where all seats move once a turn this is the seat that has just moved, or the one
that cannot move.

On a card it is not.  The end of a card ends the turn, and by then the next card is on the table and
its first eligible seat is active.  The event at the end of the turn names that seat, which is the
one that has been to move only if it is first again.  The event at the start of the next turn is
right in every order.

Main statement: `Game.turnEnd_of_reached`, with a relay in which the wrong runner rests.
-/

namespace Tabletop

/-! ## Who is first in a turn -/

namespace State

variable {s : State} {d : Definition} {order : TurnOrder} {rules : CardRules} {card : CardState}

/-- The seat that the turn order designates for the turn that comes after a state. -/
def firstSeat? (s : State) (d : Definition) : Option Seat :=
  match d.order, s.order with
  | .roundRobin, _ => some (s.active.next s.seatCount)
  | .fixed seats, .fixed index =>
    if seats = [] then some s.active else seats[(index + 1).toNat % seats.length]?
  | .simultaneous, _ => (Seat.all s.seatCount).head?
  | .cardDriven _, .cardDriven card => card.seat?
  | _, _ => none

/-- The rotation makes that seat active in an order without cards. -/
theorem Follows.firstSeat? (horder : d.order = order) (h : s.Follows order) :
    s.firstSeat? d = some (s.rotate d).active := by
  cases order with
  | roundRobin =>
    have hs : s.order = .roundRobin := h
    simp [State.firstSeat?, rotate, syncActive, Tracker.designated?, horder, hs]
  | fixed seats =>
    obtain ⟨index, hs⟩ := h
    by_cases hempty : seats = []
    · simp [State.firstSeat?, rotate, syncActive, Tracker.designated?, horder, hs, hempty]
    · obtain ⟨seat, hseat⟩ : ∃ seat, seats[(index + 1).toNat % seats.length]? = some seat :=
        ⟨_, List.getElem?_eq_getElem (Nat.mod_lt _ (List.length_pos_iff.2 hempty))⟩
      have hrotate : s.rotate d = { s with order := .fixed (index + 1) }.syncActive d := by
        simp [rotate, hs]
      have hdesignated : Tracker.designated? (.fixed (index + 1)) d.order s.seatCount =
          some seat := by
        simp only [Tracker.designated?, horder, List.isEmpty_iff, hempty, if_false]
        exact hseat
      rw [hrotate, syncActive_active hdesignated]
      simp only [State.firstSeat?, horder, hs, hempty, if_false]
      exact hseat
  | simultaneous =>
    obtain ⟨⟨submitted, hs⟩, hpositive, hsmall⟩ := h
    have hfirst := (polling_rotate (d := d) hs hpositive hsmall).active
    rw [rotate_seatCount, ← List.head?_eq_getElem?] at hfirst
    simp only [State.firstSeat?, horder]
    exact hfirst
  | cardDriven rules => cases h

/-- The rotation makes that seat active on a card. -/
theorem OnCard.firstSeat? (hrules : d.order = .cardDriven rules) (h : s.OnCard rules card) :
    s.firstSeat? d = some (s.rotate d).active := by
  obtain ⟨seat, hseat, -⟩ := h.awaits.exists_seat?
  have hrotate : s.rotate d = s.syncActive d := by simp [rotate, h.order]
  rw [hrotate, syncActive_of_seat? h.order hseat]
  simp [State.firstSeat?, hrules, h.order, hseat]

/-- If settling a card ends the turn, the card is over, and the next one is on the table with its
first eligible seat active. -/
theorem of_settleCard_turnEnded (hrules : d.order = .cardDriven rules)
    (hcard : s.order = .cardDriven card) (hseats : card.seatOrder ≠ [])
    (hended : (s.settleCard d rules).1.turnEnded = true) :
    card.isOver rules = true ∧ (s.settleCard d rules).2.order = .cardDriven card.nextCard ∧
      card.nextCard.nextEligible? = some (s.settleCard d rules).2.active := by
  cases hover : card.isOver rules with
  | false =>
    rw [settleCard_of_not_isOver hcard hover] at hended
    cases hended
  | true =>
    obtain ⟨active, hseat, hawaits⟩ := CardState.exists_awaits_nextCard hover hseats
    have hnext := endCard_order hrules hcard
    rw [settleCard_of_isOver hcard hover, syncActive_of_seat? hnext hseat]
    exact ⟨rfl, hnext, hawaits.nextEligible? (CardState.grants_nextCard hover)⟩

end State

/-! ## Who is named at the end of a turn -/

namespace Rules

variable {r : Rules} {s : State} {m : Move} {seat : Seat} {p q : Progress} {rules : CardRules}
  {card : CardState}

/-- On a card, a turn begins to end with the next card on the table and its first eligible seat
active. -/
theorem ClosesTurn.onCard (hrules : r.definition.order = .cardDriven rules)
    (hs : s.OnCard rules card) (h : r.ClosesTurn s m seat p q) :
    (∃ card', p.state.OnCard rules card') ∧
      ∃ spent : CardState, spent.isOver rules = true ∧ p.state.order = .cardDriven spent.nextCard ∧
        spent.nextCard.nextEligible? = some p.state.active := by
  cases h with
  | @move x p q hx hcarried hended =>
    obtain ⟨card₁, horder, -, hcourse, -, -⟩ := onCard_carryOut hs hx hcarried
    refine ⟨onCard_afterMove hs hrules hx hcarried, card₁.afterMove rules p.state.active m, ?_⟩
    have hseats : (card₁.afterMove rules p.state.active m).seatOrder ≠ [] := by
      rw [CardState.seatOrder_afterMove, hcourse.seatOrder]
      exact hs.seats
    have hafter := State.afterMove_eq hrules horder m
    rw [hafter] at hended
    rw [Progress.withState, hafter]
    exact State.of_settleCard_turnEnded hrules rfl hseats hended
  | @pass p p' q hcomes hundecided hends =>
    obtain ⟨card₁, h₁⟩ := onCard_of_comesTo hs hrules hcomes
    cases hends with
    | phases _ hnone =>
      rw [hrules] at hnone
      cases hnone
    | skip _ _ hended =>
      refine ⟨h₁.turns hrules (.skip p.state), card₁.skip p.state.active, ?_⟩
      have hseats : (card₁.skip p.state.active).seatOrder ≠ [] := by
        rw [CardState.seatOrder_skip]
        exact h₁.seats
      have hafter := State.skipStuckSeat_eq hrules h₁.order
      rw [hafter] at hended
      rw [Progress.withState, hafter]
      exact State.of_settleCard_turnEnded hrules rfl hseats hended

/-- In an order without cards, a turn begins to end with the seat active on whose behalf it is
closed. -/
theorem ClosesTurn.inLine {order : TurnOrder} (horder : r.definition.order = order)
    (hs : s.InLine order) (hpolling : order = .simultaneous → ∃ k, s.Polling k)
    (h : r.ClosesTurn s m seat p q) : p.state.Follows order ∧ p.state.active = seat := by
  cases h with
  | @move x p q hx hcarried hended =>
    have hcarriedOut := inLine_carryOut hs hx hcarried
    refine ⟨(State.InLine.afterMove horder hcarriedOut.follows m).1, ?_⟩
    by_cases hsubmits : order = .simultaneous
    · obtain ⟨k, hk⟩ := hpolling hsubmits
      rw [← (carryOut_order hk.card?_eq_none hx hcarried).2.2]
      exact (polling_carryOut hk hx hcarried).active_afterMove (horder.trans hsubmits) hended
    · subst horder
      rw [hcarriedOut.afterMove_eq hsubmits] at hended
      cases hended
  | @pass p p' q hcomes hundecided hends =>
    have hfollows := (inLine_of_comesTo horder hs hcomes).follows
    subst horder
    obtain rfl := hends.eq hfollows.cards?_isSome
    exact ⟨hfollows, rfl⟩

end Rules

namespace Game

variable {g : Game} {s : State}

/-- Whenever a turn is closed, the rotation makes the seat active that the order designates. -/
theorem Reached.firstSeat? {history : List TraceEntry} (h : g.Reached history s) {r : Rules}
    (hgame : r.game = g) {m : Move} {seat : Seat} {p q : Progress}
    (hcloses : r.ClosesTurn s m seat p q) {last : State} (hstirs : p.state.Stirs last) :
    last.firstSeat? g.definition = some (last.rotate g.definition).active := by
  subst hgame
  cases horder : r.definition.order with
  | cardDriven rules =>
    obtain ⟨card, hcard⟩ := h.onCard horder
    obtain ⟨⟨card', hcard'⟩, -⟩ := hcloses.onCard horder hcard
    obtain ⟨card'', -, hlast⟩ := hcard'.stirs hstirs
    exact hlast.firstSeat? horder
  | _ =>
    have hcards : r.definition.order.cards? = none := by rw [horder]; rfl
    have hline := h.inLine rfl hcards
    have hfollows := (hcloses.inLine rfl hline (fun hsubmits => h.polling hsubmits)).1
    have horder' := hstirs.order_eq hfollows.card?_eq_none
    exact (hfollows.congr horder' hstirs.seatCount).firstSeat? rfl

/-- No turn passes in the course of a move without being closed on behalf of a seat: the one that
moves, or one that cannot.  Whenever a turn is closed, triggers react to its end in the name of the
seat that the event names.  Without cards this is the seat on whose behalf the turn is closed.  On a
card it is the first eligible seat of the next card, which is already on the table; so it is never a
seat that sits out that card, unless all would.  The start of the next turn names the seat that the
order designates for it when the old turn has ended. -/
theorem turnEnd_of_reached {history : List TraceEntry} (h : g.Reached history s) {r : Rules}
    (hgame : r.game = g) {m : Move} {res : MoveResult} (hmove : r.makeMove s m = .ok res) :
    (res.state.turn ≠ s.turn → ∃ seat p q, r.ClosesTurn s m seat p q) ∧
      ∀ seat p q, r.ClosesTurn s m seat p q →
        ∃ ended last started, r.Boundary p ended last started q ∧
          (∀ u, ended.seat? = some (Trigger.actor ended u)) ∧
          (g.definition.order.cards? = none → ended.seat? = some seat) ∧
          (∀ rules, g.definition.order = .cardDriven rules → ∃ card : CardState,
            card.isOver rules = true ∧ p.state.order = .cardDriven card.nextCard ∧
            ended.seat? = card.nextCard.nextEligible? ∧
            (card.seatOrder.all card.excluded.contains = false →
              ∀ out ∈ card.excluded, ended.seat? ≠ some out)) ∧
          started.seat? = last.firstSeat? g.definition ∧ started.seat?.isSome = true := by
  subst hgame
  constructor
  · intro hturn
    obtain ⟨q, hcomes, -, hres⟩ := Rules.comesTo_of_makeMove hmove
    rw [hres] at hturn
    exact Rules.exists_closesTurn hcomes hturn
  · intro seat p q hcloses
    obtain ⟨ended, last, started, hboundary⟩ := Rules.boundary_of_endTurn hcloses.endTurn
    have hended := hboundary.ended_seat?
    have hstarted := hboundary.started_seat?
    refine ⟨ended, last, started, hboundary, fun u => ?_, fun hcards => ?_, fun rules hrules => ?_,
      ?_, ?_⟩
    · rw [Trigger.actor, hended]
      rfl
    · have hline := h.inLine rfl hcards
      rw [hended, (hcloses.inLine rfl hline (fun hsubmits => h.polling hsubmits)).2]
    · obtain ⟨card, hcard⟩ := h.onCard hrules
      obtain ⟨-, spent, hover, horder, hnext⟩ := hcloses.onCard hrules hcard
      rw [hended, ← hnext]
      exact ⟨spent, hover, horder, rfl,
        fun hall out hout => CardState.nextEligible?_nextCard_ne hout hall⟩
    · rw [hstarted, h.firstSeat? rfl hcloses hboundary.stirs]
      rfl
    · rw [hstarted]
      rfl

end Game

/-! ## A relay -/

/-- A game by cards in which each runner rests at the end of its turn. -/
def Definition.relay : Definition :=
  { Definition.minimal "relay" with
    seatVars := [.ofInt "rested" 0 0 9]
    order := .cardDriven { seats := [⟨0⟩, ⟨1⟩], maxActing := 1 }
    actions := [{ id := "run" }]
    triggers := [{
      id := "rest", pattern := .turnEnd
      effects := [.addSeat (.binding "$player") "rested" (.int 1)] }] }

/-- The rules of that game, under the usual limits. -/
def Rules.relay : Rules := { game := .ofDefinition .relay }

/-- Where two seats start that game. -/
def State.relay : State := (Rules.relay.game.start 2 0).toOption.getD default

/-- The first run as it is resolved. -/
def Resolution.relay : Resolution :=
  (Rules.relay.resolve .relay (.named "run")).toOption.getD default

/-- The progress when it has been carried out. -/
def Progress.relay : Progress :=
  (Rules.relay.carryOut (.named "run") State.relay.active .relay).toOption.getD default

/-- The progress when it has been written down, and the second runner is active on the next card. -/
def Progress.handover : Progress :=
  Progress.relay.withState (Progress.relay.state.afterMove .relay (.named "run")).2

/-- The first seat runs, which closes its turn; the second one is named at the end of the turn, and
rests. -/
theorem Game.turnEnd_of_reached_relay :
    ∃ history res q ended last started, Rules.relay.game.Reached history .relay ∧
      Rules.relay.makeMove .relay (.named "run") = .ok res ∧
      Rules.relay.ClosesTurn .relay (.named "run") ⟨0⟩ .handover q ∧
      Rules.relay.Boundary .handover ended last started q ∧
      ended.seat? = some ⟨1⟩ ∧ Trigger.actor ended res.state = ⟨1⟩ ∧
      res.state.seatVar? ⟨0⟩ "rested" = some 0 ∧ res.state.seatVar? ⟨1⟩ "rested" = some 1 := by
  have hstart : Rules.relay.game.start 2 0 = .ok .relay := eq_ok_getD (by decide +kernel)
  have hreached := Game.Reached.start hstart
  have hmove := eq_ok_getD (a := Rules.relay.makeMove .relay (.named "run")) (by decide +kernel)
  have hresolved : Rules.relay.resolve .relay (.named "run") = .ok .relay :=
    eq_ok_getD (by decide +kernel)
  have hcarried : Rules.relay.carryOut (.named "run") State.relay.active .relay = .ok .relay :=
    eq_ok_getD (by decide +kernel)
  have hactive : State.relay.active = ⟨0⟩ := by decide +kernel
  have hended : (Progress.relay.state.afterMove Rules.relay.definition (.named "run")).1.turnEnded =
      true := by decide +kernel
  obtain ⟨q, hq⟩ : ∃ q, Rules.relay.endTurn .handover = .ok q :=
    exists_ok_of_isOk (by decide +kernel)
  have hcloses : Rules.relay.ClosesTurn .relay (.named "run") ⟨0⟩ .handover q :=
    hactive ▸ .move hresolved hcarried hended hq
  have hnext : (Progress.handover.state.order.card?.bind (·.nextEligible?)) = some ⟨1⟩ := by
    decide +kernel
  obtain ⟨-, hclosings⟩ := Game.turnEnd_of_reached hreached rfl hmove
  obtain ⟨ended, last, started, hboundary, hactor, -, hcard, -⟩ := hclosings _ _ _ hcloses
  obtain ⟨card, -, horder, hnamed, -⟩ := hcard _ rfl
  rw [horder] at hnext
  have hsecond : ended.seat? = some ⟨1⟩ := hnamed.trans hnext
  refine ⟨_, _, q, ended, last, started, hreached, hmove, hcloses, hboundary, hsecond, ?_, ?_, ?_⟩
  · exact Option.some.inj ((hactor _).symm.trans hsecond)
  · decide +kernel
  · decide +kernel

end Tabletop
