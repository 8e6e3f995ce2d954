import Tabletop.Proofs.TurnOrder.CardDriven

/-!
# Passing

A seat that passes is written down as having passed, unless grants are pending: then its pass gives
up the grants that it holds.  Which of the two a pass means is decided only when the move is written
down.  By then its own effects and the triggers have done their part, and if they have issued a
grant, a pass that was made while none was pending is taken for giving grants up.

Main statement: `Game.pass_lost_iff`, which says exactly when a pass leaves no mark.
-/

namespace Tabletop

/-! ## Giving grants up -/

namespace CardState

variable {c : CardState} {rules : CardRules} {seat : Seat}

/-- After a seat has declined its grants none is pending, exactly if all were its own. -/
theorem grants_declineGrants_eq_nil :
    (c.declineGrants seat).grants = [] ↔ ∀ grant ∈ c.grants, grant.seat = seat := by
  simp [declineGrants, List.filter_eq_nil_iff]

/-- When the next eligible seat gives up its grants, the card is over only if no other grant is
pending and nobody may act at all. -/
theorem isOver_declineGrants (hnext : c.nextEligible? = some seat)
    (hroom : c.acted.length < max 1 rules.maxActing.toNat) :
    (c.declineGrants seat).isOver rules = true ↔
      (∀ grant ∈ c.grants, grant.seat = seat) ∧ rules.maxActing = 0 := by
  have hstays : (c.declineGrants seat).nextEligible? = some seat := hnext
  have hzero : rules.maxActing.toNat ≤ c.acted.length ↔ rules.maxActing = 0 := by
    constructor
    · intro hle
      apply UInt32.toNat_inj.1
      have : rules.maxActing.toNat = 0 := by omega
      exact this
    · intro hzero
      rw [hzero]
      exact Nat.zero_le _
  have hacted : (c.declineGrants seat).acted = c.acted := rfl
  simp only [isOver, hstays, hacted, Option.isNone_some, Bool.or_false, Bool.and_eq_true,
    Bool.not_eq_true', decide_eq_true_eq, hzero, ← grants_declineGrants_eq_nil]
  simp [inGrantWindow]

end CardState

/-! ## A pass in turn -/

namespace State

variable {s : State} {d : Definition} {rules : CardRules} {card : CardState} {m : Move}

/-- The card has ended, or the seat is written down as having passed on it. -/
def MarksPass (s : State) (d : Definition) (m : Move) (seat : Seat) : Prop :=
  (s.afterMove d m).1.cardEnded = true ∨
    ∃ card, (s.afterMove d m).2.order = .cardDriven card ∧ seat ∈ card.passed

/-- When a card is settled, the pass of a seat is on the books exactly if it was before or if the
card was over. -/
theorem settleCard_marks (hcard : s.order = .cardDriven card) (seat : Seat) :
    ((s.settleCard d rules).1.cardEnded = true ∨
      ∃ card', (s.settleCard d rules).2.order = .cardDriven card' ∧ seat ∈ card'.passed) ↔
    card.isOver rules = true ∨ seat ∈ card.passed := by
  cases hover : card.isOver rules with
  | true => simp [settleCard_of_isOver hcard hover]
  | false => simp [settleCard_of_not_isOver hcard hover, syncActive_order, hcard]

/-- A pass of the next eligible seat is lost exactly if grants are pending when it is written down:
it gives up those of the seat, and unless that ends the card no mark is left. -/
theorem not_marksPass_iff (hrules : d.order = .cardDriven rules)
    (hcard : s.order = .cardDriven card)
    (hpass : rules.passAction = some m.action) (hfree : m.free = false)
    (hnext : card.nextEligible? = some s.active)
    (hroom : card.acted.length < max 1 rules.maxActing.toNat) :
    ¬s.MarksPass d m s.active ↔
      card.grants ≠ [] ∧ (rules.maxActing ≠ 0 ∨ ∃ grant ∈ card.grants, grant.seat ≠ s.active) := by
  obtain ⟨-, -, -, hpassed⟩ := CardState.of_nextEligible? hnext
  unfold MarksPass
  rw [afterMove_eq hrules hcard, settleCard_marks rfl]
  by_cases hnone : card.grants = []
  · have hafter : card.afterMove rules s.active m = card.pass s.active := by
      simp [CardState.afterMove, hfree, hpass, CardState.inGrantWindow, hnone]
    have hmarked : s.active ∈ (card.pass s.active).passed := by simp [CardState.pass]
    rw [hafter]
    simp [hmarked, hnone]
  · have hafter : card.afterMove rules s.active m = card.declineGrants s.active := by
      simp [CardState.afterMove, hfree, hpass, CardState.inGrantWindow_iff.2 hnone]
    have hunmarked : s.active ∉ (card.declineGrants s.active).passed := hpassed
    rw [hafter, CardState.isOver_declineGrants hnext hroom]
    simp only [hunmarked, or_false, not_and_or, not_forall, hnone, not_false_eq_true, ne_eq,
      true_and]
    constructor
    · rintro (⟨grant, hgrant, hother⟩ | hsome)
      · exact .inr ⟨grant, hgrant, hother⟩
      · exact .inl hsome
    · rintro (hsome | ⟨grant, hgrant, hother⟩)
      · exact .inr hsome
      · exact .inl ⟨grant, hgrant, hother⟩

end State

/-- A pass that is made while no grant is pending is lost exactly if its effects and the triggers
have left grants pending, unless the mover held them all and nobody may act on a card. -/
theorem Game.pass_lost_iff {g : Game} {rules : CardRules}
    (hrules : g.definition.order = .cardDriven rules) {history : List TraceEntry} {s : State}
    (h : g.Reached history s) {r : Rules} (hgame : r.game = g) {m : Move}
    (hnone : s.order.inGrantWindow = false) (hpass : r.definition.isPass m.action = true)
    (hfree : m.free = false) {res : MoveResult} (hmove : r.makeMove s m = .ok res) :
    ∃ x p card, r.resolve s m = .ok x ∧ r.carryOut m s.active x = .ok p ∧
      p.state.order = .cardDriven card ∧
      (¬p.state.MarksPass r.definition m s.active ↔
        card.grants ≠ [] ∧
          (rules.maxActing ≠ 0 ∨ ∃ grant ∈ card.grants, grant.seat ≠ s.active)) := by
  subst hgame
  obtain ⟨card₀, h₀⟩ := h.onCard hrules
  obtain ⟨x, p, hx, hp, -⟩ := Rules.course_of_makeMove hmove
  obtain ⟨card, hcard, hactive, hcourse, -, -⟩ := Rules.onCard_carryOut h₀ hx hp
  have hclosed : card₀.grants = [] := by
    by_contra hgrants
    have hopen := CardState.inGrantWindow_iff.2 hgrants
    simp [Tracker.inGrantWindow, h₀.order, Tracker.card?, hopen] at hnone
  -- The mover was the next eligible seat, and its move has not changed that yet.
  have hnext : card.nextEligible? = some p.state.active := by
    rw [hcourse.nextEligible?, hactive]
    exact h₀.awaits.nextEligible? hclosed
  have hroom : card.acted.length < max 1 rules.maxActing.toNat := by
    rw [hcourse.acted]
    exact h₀.awaits.room hclosed
  have hpass : rules.passAction = some m.action := by
    have horder : r.definition.order = .cardDriven rules := hrules
    simpa [Definition.isPass, horder, TurnOrder.cards?] using hpass
  refine ⟨x, p, card, hx, hp, hcard, ?_⟩
  rw [← hactive]
  exact State.not_marksPass_iff hrules hcard hpass hfree hnext hroom

/-! ## A parley -/

/-- A game in which passing grants the other seat a free operation. -/
def Definition.parley : Definition :=
  { Definition.minimal "parley" with
    order := .cardDriven { seats := [⟨0⟩, ⟨1⟩], passAction := some "pass" }
    actions := [
      { id := "pass", effects := [.grantFreeOperation { seat := .id ⟨1⟩ }] },
      { id := "rally" }] }

/-- The rules of that game, under the usual limits. -/
def Rules.parley : Rules := { game := .ofDefinition .parley }

/-- Where two seats start that game. -/
def State.parley : State := (Rules.parley.game.start 2 0).toOption.getD default

/-- The pass of the first seat leaves no mark on the card. -/
theorem Game.pass_lost_parley :
    ∃ history x p, Rules.parley.game.Reached history .parley ∧
      Rules.parley.carryOut (.named "pass") State.parley.active x = .ok p ∧
      ¬p.state.MarksPass Rules.parley.definition (.named "pass") State.parley.active := by
  have hstart : Rules.parley.game.start 2 0 = .ok .parley := eq_ok_getD (by decide +kernel)
  obtain ⟨res, hres⟩ : ∃ res, Rules.parley.makeMove .parley (.named "pass") = .ok res :=
    exists_ok_of_isOk (by decide +kernel)
  have hreached := Game.Reached.start hstart
  obtain ⟨x, p, card, hx, hp, hcard, hlost⟩ := Game.pass_lost_iff rfl hreached rfl
    (by decide +kernel) (by decide +kernel) rfl hres
  refine ⟨_, x, p, hreached, hp, hlost.2 ⟨?_, .inl (by decide)⟩⟩
  have hcarried : ((Rules.parley.resolve .parley (.named "pass")).toOption.bind (fun x =>
      (Rules.parley.carryOut (.named "pass") State.parley.active x).toOption.map (fun p =>
        p.state.order.inGrantWindow))) = some true := by decide +kernel
  rw [hx] at hcarried
  simp only [Except.toOption, Option.bind_some] at hcarried
  rw [hp] at hcarried
  have hwindow : p.state.order.inGrantWindow = true := Option.some.inj hcarried
  rw [hcard] at hwindow
  exact CardState.inGrantWindow_iff.1 hwindow

end Tabletop
