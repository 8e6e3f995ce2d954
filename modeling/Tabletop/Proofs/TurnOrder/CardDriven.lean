import Tabletop.Proofs.Play.Reached
import Tabletop.Proofs.TurnOrder.Course

/-!
# Card by card

In every state that a card-driven game reaches, the books of the card are in order and know the
active seat.  A move keeps them so: while it is carried out they are only stirred, its seat is the
one that they await, and whenever a seat has been written down or passed over the card is ended if
it is over.

Main statement: `Game.Reached.onCard`.
-/

namespace Tabletop

open Relation (ReflTransGen)

/-- The books of a card that are stirred are those of a card. -/
theorem Tracker.Stirs.of_card {card : CardState} {t : Tracker}
    (h : (Tracker.cardDriven card).Stirs t) :
    ∃ card', card.Stirs card' ∧ t = .cardDriven card' := by
  cases h with
  | same => exact ⟨card, .refl, rfl⟩
  | card hstirs => exact ⟨_, hstirs, rfl⟩

namespace State

/-- A card is being played: its books are in order and know the active seat. -/
structure OnCard (s : State) (rules : CardRules) (card : CardState) : Prop where
  order : s.order = .cardDriven card
  orderly : card.Orderly rules
  awaits : card.Awaits rules s.active
  seats : card.seatOrder ≠ []

variable {s t : State} {d : Definition} {rules : CardRules} {card : CardState}

/-! ## Settling a card -/

/-- The next card is on the table when one has ended. -/
theorem endCard_order (hrules : d.order = .cardDriven rules) (hcard : s.order = .cardDriven card) :
    (s.endCard d).order = .cardDriven card.nextCard := by
  have hreveal : ∀ (t : State) source target, (t.reveal source target).order = t.order := by
    intro t source target
    unfold reveal
    split <;> rfl
  unfold endCard
  rw [hrules, hcard]
  dsimp only
  split
  · exact hreveal _ _ _
  · rfl

/-- A card that is over ends when it is settled. -/
theorem settleCard_of_isOver (hcard : s.order = .cardDriven card)
    (hover : card.isOver rules = true) :
    s.settleCard d rules =
      ({ cardEnded := true, turnEnded := true }, (s.endCard d).syncActive d) := by
  simp [settleCard, hcard, Tracker.card?, hover]

/-- A card that is not over goes on when it is settled, and the active seat is synchronised. -/
theorem settleCard_of_not_isOver (hcard : s.order = .cardDriven card)
    (hover : card.isOver rules = false) : s.settleCard d rules = ({}, s.syncActive d) := by
  simp [settleCard, hcard, Tracker.card?, hover]

/-- A seat that is passed over is passed over in the books, and then the card is settled. -/
theorem skipStuckSeat_eq (hrules : d.order = .cardDriven rules)
    (hcard : s.order = .cardDriven card) :
    s.skipStuckSeat d =
      { s with order := .cardDriven (card.skip s.active) }.settleCard d rules := by
  simp [skipStuckSeat, hrules, TurnOrder.cards?, hcard, Tracker.modifyCard]

/-- A move is written down in the books, and then the card is settled. -/
theorem afterMove_eq (hrules : d.order = .cardDriven rules) (hcard : s.order = .cardDriven card)
    (m : Move) :
    s.afterMove d m =
      { s with order := .cardDriven (card.afterMove rules s.active m) }.settleCard d rules := by
  simp [afterMove, hrules, hcard]

/-- The seat that the books designate becomes active. -/
theorem syncActive_of_seat? (hcard : s.order = .cardDriven card) {seat : Seat}
    (hseat : card.seat? = some seat) : s.syncActive d = { s with active := seat } := by
  unfold syncActive Tracker.designated?
  rw [hcard]
  simp [hseat]

/-- Synchronising the active seat leaves the turn order. -/
theorem syncActive_order (s : State) (d : Definition) : (s.syncActive d).order = s.order := by
  unfold syncActive
  split <;> rfl

/-- Books in order that await some seat know the active seat once it is brought in line. -/
theorem onCard_syncActive (hcard : s.order = .cardDriven card) (horderly : card.Orderly rules)
    (hseats : card.seatOrder ≠ [])
    (hawaits : ∃ active, card.seat? = some active ∧ card.Awaits rules active) :
    (s.syncActive d).OnCard rules card := by
  obtain ⟨active, hactive, hawaits⟩ := hawaits
  rw [syncActive_of_seat? hcard hactive]
  exact ⟨hcard, horderly, hawaits, hseats⟩

/-- Once a card is settled, there is a card whose books know the active seat. -/
theorem onCard_settleCard (hrules : d.order = .cardDriven rules)
    (hcard : s.order = .cardDriven card)
    (horderly : card.Orderly rules) (hseats : card.seatOrder ≠ []) :
    ∃ card', (s.settleCard d rules).2.OnCard rules card' := by
  cases hover : card.isOver rules with
  | true =>
    refine ⟨card.nextCard, ?_⟩
    rw [settleCard_of_isOver hcard hover]
    apply onCard_syncActive (endCard_order hrules hcard) horderly.nextCard hseats
    exact CardState.exists_awaits_nextCard hover hseats
  | false =>
    refine ⟨card, ?_⟩
    rw [settleCard_of_not_isOver hcard hover]
    exact onCard_syncActive hcard horderly hseats (CardState.exists_awaits_of_not_isOver hover)

/-! ## Going on -/

namespace OnCard

/-- A card is still being played when its books are stirred. -/
theorem stirs (h : s.OnCard rules card) (hstirs : s.Stirs t) :
    ∃ card', card.Stirs card' ∧ t.OnCard rules card' := by
  obtain ⟨card', hcard, horder⟩ := Tracker.Stirs.of_card (h.order ▸ hstirs.order)
  refine ⟨card', hcard, horder, h.orderly.stirs hcard, ?_, ?_⟩
  · rw [hstirs.active]
    exact h.awaits.stirs hcard
  · rw [hcard.sameCourse.seatOrder]
    exact h.seats

/-- Passing over a seat, starting a turn and bringing the active seat in line keep the books in
order and in the know. -/
theorem turns (hrules : d.order = .cardDriven rules) (h : s.OnCard rules card)
    (hstep : s.Turns d t) : ∃ card', t.OnCard rules card' := by
  have hsync : ∀ u : State, u.order = s.order → (u.syncActive d).OnCard rules card :=
    fun u hu => onCard_syncActive (hu.trans h.order) h.orderly h.seats h.awaits.exists_seat?
  cases hstep with
  | stirs hstirs =>
    obtain ⟨card', -, h'⟩ := h.stirs hstirs
    exact ⟨card', h'⟩
  | skip =>
    rw [skipStuckSeat_eq hrules h.order]
    refine onCard_settleCard hrules rfl (h.orderly.skip h.awaits) ?_
    rw [CardState.seatOrder_skip]
    exact h.seats
  | rotate =>
    refine ⟨card, ?_⟩
    unfold rotate
    rw [h.order]
    exact hsync s rfl
  | sync => exact ⟨card, hsync s rfl⟩

/-- A card is being played on the way to the next decision, this one or another. -/
theorem goesOn (hrules : d.order = .cardDriven rules) (h : s.OnCard rules card)
    (hon : s.GoesOn d t) : ∃ card', t.OnCard rules card' := by
  induction hon with
  | refl => exact ⟨card, h⟩
  | tail _ hstep ih =>
    obtain ⟨card', h'⟩ := ih
    exact h'.turns hrules hstep

end OnCard

end State

/-! ## A move -/

namespace Rules

variable {r : Rules} {s : State} {m : Move} {x : Resolution} {p : Progress} {rules : CardRules}
  {card : CardState}

/-- While a move is carried out, the course of the card stays where it is, and so does the active
seat; unless the move is a free operation, nothing but stirring happens to the books. -/
theorem onCard_carryOut (h : s.OnCard rules card) (hx : r.resolve s m = .ok x)
    (hp : r.carryOut m s.active x = .ok p) :
    ∃ card', p.state.order = .cardDriven card' ∧ p.state.active = s.active ∧
      card.SameCourse card' ∧ card'.Orderly rules ∧ (m.free = false → card.Stirs card') := by
  obtain ⟨s₁, hbefore, hafter⟩ := carryOut_stirs hx hp
  obtain ⟨card₁, hstirs₁, h₁⟩ := h.stirs hbefore
  -- Between the two rounds of stirring only a grant can have been used.
  have hspent : ∃ card₂, (s₁.spendGrant x.grant).order = .cardDriven card₂ ∧
      (s₁.spendGrant x.grant).active = s₁.active ∧ card₁.SameCourse card₂ ∧ card₂.Orderly rules ∧
      (x.grant = none → card₂ = card₁) := by
    cases x.grant with
    | none => exact ⟨card₁, h₁.order, rfl, .refl card₁, h₁.orderly, fun _ => rfl⟩
    | some id =>
      refine ⟨card₁.consume id, ?_, rfl, ⟨rfl, rfl, rfl, rfl⟩, h₁.orderly.consume id, fun h => ?_⟩
      · simp [State.spendGrant, State.consumeGrant, h₁.order, Tracker.modifyCard]
      · cases h
  obtain ⟨card₂, horder, hactive, hcourse, horderly, hsame⟩ := hspent
  obtain ⟨card₃, hstirs₃, horder₃⟩ := Tracker.Stirs.of_card (horder ▸ hafter.order)
  refine ⟨card₃, horder₃, ?_, ?_, horderly.stirs hstirs₃, fun hfree => ?_⟩
  · rw [hafter.active, hactive, hbefore.active]
  · exact (hstirs₁.sameCourse.trans hcourse).trans hstirs₃.sameCourse
  · obtain ⟨hnone, -⟩ := inTurn_of_resolve hx hfree
    rw [hsame hnone] at hstirs₃
    exact ReflTransGen.trans hstirs₁ hstirs₃

/-- A move in turn is made by the next eligible seat, with room for it, unless it passes while
grants are pending. -/
theorem next_of_resolve (h : s.OnCard rules card) (hrules : r.definition.order = .cardDriven rules)
    (hx : r.resolve s m = .ok x) (hfree : m.free = false)
    (hturn : card.grants = [] ∨ rules.passAction ≠ some m.action) :
    card.nextEligible? = some s.active ∧ card.acted.length < max 1 rules.maxActing.toNat := by
  have hnone : card.grants = [] := by
    rcases hturn with hnone | hpass
    · exact hnone
    · by_contra hgrants
      obtain ⟨-, hpasses⟩ := inTurn_of_resolve hx hfree
      have hwindow : s.order.inGrantWindow = true := by
        simpa [Tracker.inGrantWindow, h.order, Tracker.card?] using
          CardState.inGrantWindow_iff.2 hgrants
      have hpasses := hpasses hwindow
      simp [Definition.isPass, hrules, TurnOrder.cards?] at hpasses
      exact hpass hpasses
  exact ⟨h.awaits.nextEligible? hnone, h.awaits.room hnone⟩

/-- Once a move has been written down, there is a card whose books know the active seat. -/
theorem onCard_afterMove (h : s.OnCard rules card) (hrules : r.definition.order = .cardDriven rules)
    (hx : r.resolve s m = .ok x) (hp : r.carryOut m s.active x = .ok p) :
    ∃ card', (p.state.afterMove r.definition m).2.OnCard rules card' := by
  obtain ⟨card₁, horder, hactive, hcourse, horderly, hstirs⟩ := onCard_carryOut h hx hp
  have horderly' : (card₁.afterMove rules p.state.active m).Orderly rules := by
    apply horderly.afterMove
    intro hfree hturn
    -- Where no grant is pending now, none was when the move began.
    have hnone : card₁.grants = [] → card.grants = [] :=
      fun hnone => List.prefix_nil.1 (hnone ▸ (hstirs hfree).prefix_grants)
    rw [hcourse.nextEligible?, hcourse.acted, hactive]
    exact next_of_resolve h hrules hx hfree (hturn.imp_left hnone)
  have hseats : (card₁.afterMove rules p.state.active m).seatOrder ≠ [] := by
    rw [CardState.seatOrder_afterMove, hcourse.seatOrder]
    exact h.seats
  rw [State.afterMove_eq hrules horder m]
  exact State.onCard_settleCard hrules rfl horderly' hseats

/-- A move keeps the books in order and in the know, wherever it comes to. -/
theorem onCard_of_comesTo {q : Progress} (h : s.OnCard rules card)
    (hrules : r.definition.order = .cardDriven rules) (hcomes : r.ComesTo s m q) :
    ∃ card', q.state.OnCard rules card' := by
  obtain ⟨x, p, hx, hp, hcloses⟩ := course_of_comesTo hcomes
  obtain ⟨card₂, hsettled⟩ := onCard_afterMove h hrules hx hp
  unfold State.Closes at hcloses
  split at hcloses
  · obtain ⟨s', hs', hon⟩ := hcloses
    obtain ⟨card₃, -, h₃⟩ := hsettled.stirs hs'
    exact h₃.goesOn hrules (.head (.rotate s') hon)
  · exact hsettled.goesOn hrules hcloses

/-- After a move a card is being played, this one or another. -/
theorem onCard_of_makeMove {res : MoveResult} (h : s.OnCard rules card)
    (hrules : r.definition.order = .cardDriven rules) (hmove : r.makeMove s m = .ok res) :
    ∃ card', res.state.OnCard rules card' := by
  obtain ⟨q, hcomes, -, hres⟩ := comesTo_of_makeMove hmove
  obtain ⟨card₁, h₁⟩ := onCard_of_comesTo h hrules hcomes
  obtain ⟨card₂, -, h₂⟩ := h₁.stirs (.stamp q.state)
  exact ⟨card₂, hres ▸ h₂⟩

end Rules

/-! ## A game -/

namespace Game

variable {g : Game} {rules : CardRules}

/-- A game starts with books that are in order and know the active seat: it is the one that is to
move, whatever grants the setup has issued. -/
theorem onCard_of_start {count : Nat} {seed : UInt64} {s : State}
    (hrules : g.definition.order = .cardDriven rules) (h : g.start count seed = .ok s) :
    ∃ card, s.OnCard rules card ∧ card.seat? = some s.active := by
  obtain ⟨blank, t, hblank, hstirs, rfl⟩ := course_of_start h
  obtain ⟨horder, -, hpositive, hsmall, hsynced⟩ := blank_eq_ok hblank
  rw [hrules] at horder
  have hseats : (if rules.seats.isEmpty then Seat.all count else rules.seats) ≠ [] := by
    split
    · have hmany : count % 256 ≠ 0 := by omega
      simpa [Seat.all] using hmany
    · rename_i hlisted
      simpa using hlisted
  have hblank : (blank.syncActive g.definition).OnCard rules _ :=
    State.onCard_syncActive horder (CardState.first_orderly _ rules) hseats
      (CardState.first_awaits hseats rules)
  rw [hsynced] at hblank
  obtain ⟨card, -, hcard⟩ := hblank.stirs hstirs
  obtain ⟨active, hactive, hawaits⟩ := hcard.awaits.exists_seat?
  refine ⟨card, ?_⟩
  rw [State.syncActive_of_seat? hcard.order hactive]
  exact ⟨⟨hcard.order, hcard.orderly, hawaits, hcard.seats⟩, hactive⟩

/-- In every state that a card-driven game reaches, the books of the card are in order and know the
active seat. -/
theorem Reached.onCard (hrules : g.definition.order = .cardDriven rules)
    {history : List TraceEntry} {s : State} (h : g.Reached history s) :
    ∃ card, s.OnCard rules card := by
  induction h with
  | start h =>
    obtain ⟨card, hcard, -⟩ := onCard_of_start hrules h
    exact ⟨card, hcard⟩
  | move hprior hgame hmove ih =>
    obtain ⟨card, hcard⟩ := ih
    refine Rules.onCard_of_makeMove hcard ?_ hmove
    rw [Rules.definition, hgame]
    exact hrules

end Game

end Tabletop
