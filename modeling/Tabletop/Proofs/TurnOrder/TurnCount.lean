import Tabletop.Proofs.Play.Table
import Tabletop.Proofs.TurnOrder.Submission

/-!
# The turn order and the number of the turn

The number of the turn goes up in one place, when a turn starts.  Where the turn order stands is
moved on in several.  In round robin and in a fixed order the rotation does so, just before the
number goes up.  A card is ended by a move that has been written down or by a seat that has been
passed over, and only then its turn is closed.  The list of those who have moved is emptied by the
rotation, and it grows with each move.

Nothing but the closing of a turn moves the order on, and no turn is closed without that.  So the
two never drift apart: where a number of turns has been closed, the number of the turn and the place
in the order both follow from it.  All these counters wrap around, at different widths; the order
can be read off the number of the turn as long as that number has not done so.

Main statement: `Game.inStep_of_played`, with a dance in which two seats take turns unevenly.
-/

namespace Tabletop

/-- The chronicle of how many turns have been closed. -/
def turnsClosed : Chronicle Nat where
  first := 0
  move n s _ t := if t.turn = s.turn then n else n + 1
  pass n s t := if t.turn = s.turn then n else n + 1

/-! ## Where the order stands -/

namespace Seat

/-- The seats of a game are numbered from zero. -/
theorem map_toNat_all {count : Nat} (h : count ≤ 255) :
    (all count).map toNat = List.range count := by
  unfold all
  rw [Nat.mod_eq_of_lt (Nat.lt_succ_of_le h), List.map_map]
  refine (List.map_congr_left fun i hi => ?_).trans (List.map_id _)
  have hsmall := List.mem_range.1 hi
  exact UInt8.toNat_ofNat_of_lt' (Nat.lt_of_lt_of_le hsmall (Nat.le_succ_of_le h))

/-- The next seat has the next number, and after the last seat comes the first one. -/
theorem toNat_next (seat : Seat) {count : Nat} (hpositive : 0 < count) (hcount : count ≤ 255) :
    (seat.next count).toNat = (seat.toNat + 1) % count := by
  have hlt := Nat.mod_lt (seat.toNat + 1) hpositive
  simp only [next, toNat, Nat.max_eq_left hpositive]
  exact UInt8.toNat_ofNat_of_lt' (Nat.lt_trans hlt (Nat.lt_succ_of_le hcount))

end Seat

namespace CardState

variable {c c' : CardState}

/-- One thing done to the books leaves the number of the card. -/
theorem Stir.cardIndex (h : c.Stir c') : c'.cardIndex = c.cardIndex := by
  cases h with
  | grant => rfl
  | override => rfl

/-- Stirring the books leaves the number of the card. -/
theorem Stirs.cardIndex (h : c.Stirs c') : c'.cardIndex = c.cardIndex := by
  induction h with
  | refl => rfl
  | tail _ hstep ih => exact hstep.cardIndex.trans ih

/-- Passing over a seat leaves the number of the card. -/
theorem cardIndex_skip (c : CardState) (seat : Seat) : (c.skip seat).cardIndex = c.cardIndex := by
  unfold skip
  split
  · rfl
  · split <;> rfl

/-- A move leaves the number of the card. -/
theorem cardIndex_afterMove (c : CardState) (rules : CardRules) (seat : Seat) (m : Move) :
    (c.afterMove rules seat m).cardIndex = c.cardIndex := by
  unfold afterMove
  split
  · rfl
  · split
    · split <;> rfl
    · unfold act
      split <;> rfl

end CardState

namespace State

/-- The turn order stands where it does when so many turns have been closed.  Where all seats move
at once, each turn begins in the same place. -/
def Stands (s : State) (n : Nat) : TurnOrder → Prop
  | .roundRobin => s.order = .roundRobin ∧ (0 < s.seatCount ∧ s.seatCount ≤ 255) ∧
      s.active.toNat = n % s.seatCount
  | .fixed _ => s.order = .fixed (UInt64.ofNat n)
  | .cardDriven _ => ∃ card, s.order = .cardDriven card ∧ card.cardIndex = UInt32.ofNat n
  | .simultaneous => True

/-- The turn order stands where the number of the turn says. -/
def InStep (s : State) : TurnOrder → Prop
  | .roundRobin => s.order = .roundRobin ∧ s.active.toNat = (s.turn.toNat - 1) % s.seatCount
  | .fixed seats => ∃ index, s.order = .fixed index ∧ index.toNat = s.turn.toNat - 1 ∧
      (seats ≠ [] → seats[(s.turn.toNat - 1) % seats.length]? = some s.active)
  | .cardDriven _ => ∃ card, s.order = .cardDriven card ∧ card.cardIndex.toNat = s.turn.toNat - 1
  | .simultaneous => ∃ submitted k, s.order = .simultaneous submitted ∧
      submitted.map Seat.toNat = List.range k ∧ k < s.seatCount ∧ s.active.toNat = k

end State

/-- How far the order has been moved on when a turn is about to be closed: a card has ended by
then. -/
def TurnOrder.closing : TurnOrder → Nat → Nat
  | .cardDriven _, n => n + 1
  | _, n => n

/-- Without cards the order has not been moved on when a turn is about to be closed. -/
theorem TurnOrder.closing_eq {order : TurnOrder} (hcards : order.cards?.isSome = false) (n : Nat) :
    order.closing n = n := by
  cases order with
  | cardDriven rules => cases hcards
  | _ => rfl

namespace State

variable {s t : State} {d : Definition} {n : Nat} {order : TurnOrder} {rules : CardRules}

namespace Stands

/-- Effects and triggers do not move the order on. -/
theorem stirs (h : s.Stands n order) (hstirs : s.Stirs t) : t.Stands n order := by
  cases order with
  | roundRobin =>
    obtain ⟨hs, hcount, hactive⟩ := h
    have hnone : s.order.card? = none := by rw [hs]; rfl
    refine ⟨(hstirs.order_eq hnone).trans hs, ?_⟩
    rw [hstirs.seatCount, hstirs.active]
    exact ⟨hcount, hactive⟩
  | fixed seats =>
    have hs : s.order = .fixed (UInt64.ofNat n) := h
    have hnone : s.order.card? = none := by rw [hs]; rfl
    exact (hstirs.order_eq hnone).trans hs
  | cardDriven rules =>
    obtain ⟨card, hcard, hindex⟩ := h
    obtain ⟨card', hstirred, hcard'⟩ := Tracker.Stirs.of_card (hcard ▸ hstirs.order)
    exact ⟨card', hcard', hstirred.cardIndex.trans hindex⟩
  | simultaneous => trivial

/-- Bringing the active seat in line does not move the order on. -/
theorem syncActive (h : s.Stands n order) : (s.syncActive d).Stands n order := by
  cases order with
  | roundRobin =>
    obtain ⟨hs, hrest⟩ := h
    have hsame : s.syncActive d = s := by simp [State.syncActive, Tracker.designated?, hs]
    rw [hsame]
    exact ⟨hs, hrest⟩
  | fixed seats => exact (syncActive_order s d).trans h
  | cardDriven rules =>
    obtain ⟨card, hcard, hindex⟩ := h
    exact ⟨card, (syncActive_order s d).trans hcard, hindex⟩
  | simultaneous => trivial

/-- The rotation moves the order on, unless a card has ended before. -/
theorem rotate (h : s.Stands (order.closing n) order) : (s.rotate d).Stands (n + 1) order := by
  cases order with
  | roundRobin =>
    obtain ⟨hs, hcount, hactive⟩ := h
    have hrotate : s.rotate d = { s with active := s.active.next s.seatCount }.syncActive d := by
      simp [State.rotate, hs]
    rw [hrotate]
    have hnext : State.Stands { s with active := s.active.next s.seatCount } (n + 1)
        .roundRobin := by
      refine ⟨hs, hcount, ?_⟩
      calc (s.active.next s.seatCount).toNat
          = (s.active.toNat + 1) % s.seatCount := Seat.toNat_next _ hcount.1 hcount.2
        _ = (n % s.seatCount + 1) % s.seatCount := by rw [hactive]; rfl
        _ = (n + 1) % s.seatCount := Nat.mod_add_mod n s.seatCount 1
    exact hnext.syncActive
  | fixed seats =>
    have hs : s.order = .fixed (UInt64.ofNat n) := h
    have hrotate : s.rotate d = { s with order := .fixed (UInt64.ofNat n + 1) }.syncActive d := by
      simp [State.rotate, hs]
    rw [hrotate]
    have hnext : State.Stands { s with order := .fixed (UInt64.ofNat n + 1) } (n + 1)
        (.fixed seats) :=
      congrArg Tracker.fixed (UInt64.ofNat_add n 1).symm
    exact hnext.syncActive
  | cardDriven rules =>
    obtain ⟨card, hcard, hindex⟩ := h
    have hrotate : s.rotate d = s.syncActive d := by simp [State.rotate, hcard]
    have hstands : s.Stands (n + 1) (.cardDriven rules) := ⟨card, hcard, hindex⟩
    rw [hrotate]
    exact hstands.syncActive
  | simultaneous => trivial

/-- If settling a card ends the turn, the next card is on the table. -/
theorem settleCard (hrules : d.order = .cardDriven rules) (h : s.Stands n (.cardDriven rules)) :
    (s.settleCard d rules).2.Stands
      (if (s.settleCard d rules).1.turnEnded then n + 1 else n) (.cardDriven rules) := by
  obtain ⟨card, hcard, hindex⟩ := h
  cases hover : card.isOver rules with
  | true =>
    rw [settleCard_of_isOver hcard hover]
    have hended : (s.endCard d).Stands (n + 1) (.cardDriven rules) := by
      refine ⟨_, endCard_order hrules hcard, ?_⟩
      show card.cardIndex + 1 = UInt32.ofNat (n + 1)
      rw [hindex, UInt32.ofNat_add]
      rfl
    exact hended.syncActive
  | false =>
    have hstands : s.Stands n (.cardDriven rules) := ⟨card, hcard, hindex⟩
    rw [settleCard_of_not_isOver hcard hover]
    exact hstands.syncActive

/-- If a move ends the turn, the turn order stands where it does when a turn is about to be
closed. -/
theorem afterMove (horder : d.order = order) (h : s.Stands n order) (m : Move) :
    (s.afterMove d m).2.Stands
      (if (s.afterMove d m).1.turnEnded then order.closing n else n) order := by
  cases order with
  | roundRobin =>
    have hafter : s.afterMove d m = ({}, s.syncActive d) := by simp [State.afterMove, horder]
    rw [hafter]
    exact h.syncActive
  | fixed seats =>
    have hafter : s.afterMove d m = ({}, s.syncActive d) := by simp [State.afterMove, horder]
    rw [hafter]
    exact h.syncActive
  | cardDriven rules =>
    obtain ⟨card, hcard, hindex⟩ := h
    rw [afterMove_eq horder hcard m]
    refine settleCard horder ⟨_, rfl, ?_⟩
    exact (card.cardIndex_afterMove rules s.active m).trans hindex
  | simultaneous => trivial

/-- The same goes for a seat that is passed over. -/
theorem skipStuckSeat (horder : d.order = order) (h : s.Stands n order) :
    (s.skipStuckSeat d).2.Stands
      (if (s.skipStuckSeat d).1.turnEnded then order.closing n else n) order := by
  cases order with
  | cardDriven rules =>
    obtain ⟨card, hcard, hindex⟩ := h
    rw [skipStuckSeat_eq horder hcard]
    refine settleCard horder ⟨_, rfl, ?_⟩
    exact (card.cardIndex_skip s.active).trans hindex
  | simultaneous => trivial
  | _ =>
    have hskip : s.skipStuckSeat d = ({}, s) := by
      simp [State.skipStuckSeat, horder, TurnOrder.cards?]
    rw [hskip]
    exact h

/-- A blank state stands at the start. -/
theorem of_blank {count : Nat} {seed : UInt64} (h : d.blank count seed = .ok s) :
    s.Stands 0 d.order := by
  obtain ⟨hinitial, hcount, hpositive, hsmall, -⟩ := Game.blank_eq_ok h
  have hactive := (isBlank h).active
  cases horder : d.order with
  | roundRobin =>
    rw [horder] at hinitial hactive
    refine ⟨hinitial, hcount ▸ ⟨hpositive, hsmall⟩, ?_⟩
    rw [hactive]
    exact (Nat.zero_mod _).symm
  | fixed seats =>
    rw [horder] at hinitial
    exact hinitial
  | cardDriven rules =>
    rw [horder] at hinitial
    exact ⟨_, hinitial, rfl⟩
  | simultaneous => trivial

end Stands

/-- The game goes on within the turn, with the order where it was, or a turn is closed and the order
is moved on. -/
def MovesOn (s t : State) (n : Nat) (order : TurnOrder) : Prop :=
  t.turn = s.turn ∧ t.Stands n order ∨ t.turn = s.turn + 1 ∧ t.Stands (n + 1) order

end State

/-! ## In the course of a move -/

namespace Rules

variable {r : Rules} {s : State} {m : Move} {x : Resolution} {p p' q : Progress} {n : Nat}
  {order : TurnOrder}

/-- The end of a turn moves the order on, unless a card has ended before. -/
theorem stands_of_endTurn (h : p.state.Stands (order.closing n) order)
    (hended : r.endTurn p = .ok q) :
    q.state.Stands (n + 1) order := by
  obtain ⟨p', s, hbefore, hstart, hafter⟩ := endTurn_eq_ok hended
  have hrotated : (p'.state.rotate r.definition).Stands (n + 1) order :=
    (h.stirs hbefore.state).rotate
  exact (hrotated.stirs (startTurn_rotates hstart)).stirs hafter.state

/-- While a move is carried out the order is not moved on. -/
theorem stands_carryOut (h : s.Stands n order) (hx : r.resolve s m = .ok x)
    (hcarried : r.carryOut m s.active x = .ok p) : p.state.Stands n order := by
  obtain ⟨s₁, hbefore, hafter⟩ := carryOut_stirs hx hcarried
  have hstands := h.stirs hbefore
  refine State.Stands.stirs ?_ hafter
  cases x.grant with
  | none => exact hstands
  | some id =>
    cases order with
    | roundRobin =>
      obtain ⟨hs, hrest⟩ := hstands
      exact ⟨(State.consumeGrant_order (by rw [hs]; rfl) id).trans hs, hrest⟩
    | fixed seats =>
      have hs : s₁.order = .fixed (UInt64.ofNat n) := hstands
      exact (State.consumeGrant_order (by rw [hs]; rfl) id).trans hs
    | cardDriven rules =>
      obtain ⟨card, hcard, hindex⟩ := hstands
      refine ⟨card.consume id, ?_, hindex⟩
      simp [State.spendGrant, State.consumeGrant, hcard, Tracker.modifyCard]
    | simultaneous => trivial

/-- Where a turn ends, the number of the turn and the order are moved on together. -/
theorem movesOn_of_endTurn (hturn : p.state.turn = s.turn)
    (h : p.state.Stands (order.closing n) order) (hended : r.endTurn p = .ok q) :
    s.MovesOn q.state n order :=
  .inr ⟨((endTurn_nextTurn hended).of_turn hturn).turn, stands_of_endTurn h hended⟩

/-- When a move is written down, the game goes on within the turn or the turn is closed. -/
theorem movesOn_of_setsOut (horder : r.definition.order = order) (h : s.Stands n order)
    (hx : r.resolve s m = .ok x) (hcarried : r.carryOut m s.active x = .ok p)
    (hout : r.SetsOut m p p') : s.MovesOn p'.state n order := by
  obtain ⟨pushed, hpushed⟩ := carryOut_interrupted hx hcarried
  have hturn := (State.SameMoment.afterMove p.state r.definition m).turn.trans hpushed.turn
  have hafter := (stands_carryOut h hx hcarried).afterMove horder m
  rcases setsOut_iff.1 hout with ⟨hended, hout⟩ | ⟨hended, rfl⟩
  · rw [if_pos hended] at hafter
    exact movesOn_of_endTurn hturn hafter hout
  · rw [if_neg (by simp [hended])] at hafter
    exact .inl ⟨hturn, hafter⟩

/-- By a transition the game goes on within the turn or the turn is closed. -/
theorem movesOn_of_transition (horder : r.definition.order = order) (h : p.state.Stands n order)
    (htransition : r.transition p = .ok q) : p.state.MovesOn q.state n order := by
  have hskipped := State.SameMoment.skipStuckSeat p.state r.definition
  have hskip := h.skipStuckSeat horder
  cases transits_of_transition htransition with
  | @resume phase p' _ hleave hresume =>
    obtain ⟨pushed, hpushed⟩ := leavePhase_interrupted hleave
    subst hresume
    have hresumed : p'.state.Stirs
        { p'.state with suspended := p'.state.suspended.dropLast, phase } :=
      .of_eq rfl rfl rfl
    exact .inl ⟨hpushed.turn, (h.stirs (leavePhase_stirs hleave)).stirs hresumed⟩
  | skip _ _ hended hskips =>
    subst hskips
    rw [if_neg (by simp [hended])] at hskip
    exact .inl ⟨hskipped.turn, hskip⟩
  | skipAll _ _ hended hclosed =>
    rw [if_pos hended] at hskip
    exact movesOn_of_endTurn hskipped.turn hskip hclosed
  | @enter phase p' _ _ hleave _ hentered =>
    obtain ⟨pushed, hpushed⟩ := leavePhase_interrupted hleave
    obtain ⟨more, hmore⟩ := (dispatch_ripples hentered).interrupted
    have hsynced := State.SameMoment.syncActive { p'.state with phase } r.definition
    have hphase : p'.state.Stirs { p'.state with phase } := .of_eq rfl rfl rfl
    have hleft := ((h.stirs (leavePhase_stirs hleave)).stirs hphase).syncActive (d := r.definition)
    exact .inl ⟨hmore.turn.trans (hsynced.turn.trans hpushed.turn),
      hleft.stirs (dispatch_ripples hentered).stirs.state⟩
  | close _ hcards hleave _ hclosed =>
    refine movesOn_of_endTurn rfl ?_ (bind_ok hleave hclosed)
    rw [TurnOrder.closing_eq (horder ▸ hcards)]
    exact h

end Rules

/-! ## A game -/

namespace Game

variable {g : Game} {moves : List Move} {s t : State} {n : Nat}

/-- So many turns have been closed, and both the number of the turn and the turn order tell so. -/
structure Counts (g : Game) (n : Nat) (s : State) : Prop where
  turn : s.turn = UInt32.ofNat (n + 1)
  stands : s.Stands n g.definition.order

/-- One more turn has been closed exactly if the number of the turn is another one. -/
theorem Counts.on (h : g.Counts n s) (hmoves : s.MovesOn t n g.definition.order) :
    g.Counts (if t.turn = s.turn then n else n + 1) t := by
  rcases hmoves with ⟨hturn, hstands⟩ | ⟨hturn, hstands⟩
  · rw [if_pos hturn]
    exact ⟨hturn.trans h.turn, hstands⟩
  · rw [if_neg (by rw [hturn]; simp)]
    refine ⟨?_, hstands⟩
    rw [hturn, h.turn, UInt32.ofNat_add (n + 1)]
    rfl

/-- At the start no turn has been closed. -/
theorem counts_of_start {count : Nat} {seed : UInt64} (h : g.start count seed = .ok s) :
    g.Counts 0 s := by
  obtain ⟨blank, t, hblank, hstirs, rfl⟩ := course_of_start h
  have hstamp : (t.syncActive g.definition).Stirs (t.syncActive g.definition).stamp := .stamp _
  have hstarted := ((State.Stands.of_blank hblank).stirs hstirs).syncActive (d := g.definition)
  exact ⟨(first_of_start h).1, hstarted.stirs hstamp⟩

/-- The number of turns that have been closed is what the number of the turn and the turn order
tell. -/
theorem Told.counts (h : g.Told turnsClosed moves n s) : g.Counts n s := by
  refine h.invariant (P := fun _ n s => g.Counts n s) counts_of_start ?_ ?_ ?_
  · rintro r moves n s m x p p' rfl hx hcarried hout hcounts
    exact hcounts.on (Rules.movesOn_of_setsOut rfl hcounts.stands hx hcarried hout)
  · rintro r moves n p q rfl - htransition hcounts
    exact hcounts.on (Rules.movesOn_of_transition rfl hcounts.stands htransition)
  · rintro moves n s hcounts
    exact ⟨hcounts.turn, hcounts.stands.stirs (.stamp s)⟩

end Game

/-- Where the first `k` seats have moved, they are listed by number and seat number `k` is
active. -/
theorem State.Polling.inStep {s : State} {k : Nat} (h : s.Polling k) : s.InStep .simultaneous := by
  have hall := Seat.map_toNat_all h.count_le
  refine ⟨_, k, h.order, ?_, h.lt, ?_⟩
  · rw [List.map_take, hall, List.take_range, Nat.min_eq_left (Nat.le_of_lt h.lt)]
  · have hactive := congrArg (Option.map Seat.toNat) h.active
    rw [← List.getElem?_map, hall, List.getElem?_range h.lt] at hactive
    exact (Option.some.inj hactive).symm

namespace Game

variable {g : Game} {moves : List Move} {s : State}

/-- In every state of a game the number of the turn is one more than the number of turns that have
been closed; and as long as it has not wrapped around, the turn order stands where it says. -/
theorem inStep_of_played (h : g.Played moves s) :
    (∃ n, g.Told turnsClosed moves n s) ∧
      ∀ n, g.Told turnsClosed moves n s → n + 1 < UInt32.size →
        s.turn.toNat = n + 1 ∧ s.InStep g.definition.order := by
  refine ⟨h.exists_told _, fun n htold hsmall => ?_⟩
  obtain ⟨hturn, hstands⟩ := htold.counts
  have hnumber : s.turn.toNat = n + 1 := by
    rw [hturn]
    exact UInt32.toNat_ofNat_of_lt' hsmall
  obtain ⟨history, hreached⟩ := h.exists_reached
  refine ⟨hnumber, ?_⟩
  cases horder : g.definition.order with
  | roundRobin =>
    rw [horder] at hstands
    obtain ⟨hs, -, hseat⟩ := hstands
    refine ⟨hs, ?_⟩
    rw [hnumber]
    exact hseat
  | fixed seats =>
    rw [horder] at hstands
    obtain ⟨index, hindex, hseat⟩ := hreached.fixed horder
    obtain rfl : index = UInt64.ofNat n := Tracker.fixed.inj (hindex.symm.trans hstands)
    have hplace : (UInt64.ofNat n).toNat = n :=
      UInt64.toNat_ofNat_of_lt' (Nat.lt_trans (Nat.lt_of_succ_lt hsmall) (by decide))
    rw [hplace] at hseat
    refine ⟨_, hindex, ?_⟩
    rw [hnumber, hplace]
    exact ⟨rfl, hseat⟩
  | cardDriven rules =>
    rw [horder] at hstands
    obtain ⟨card, hcard, hindex⟩ := hstands
    refine ⟨card, hcard, ?_⟩
    rw [hnumber, hindex]
    exact UInt32.toNat_ofNat_of_lt' (Nat.lt_of_succ_lt hsmall)
  | simultaneous =>
    obtain ⟨k, hk⟩ := hreached.polling horder
    exact hk.inStep

end Game

/-! ## A dance -/

/-- A game in which the second seat takes two turns for each of the first one. -/
def Definition.dance : Definition :=
  { Definition.minimal "dance" with
    order := .fixed [⟨1⟩, ⟨0⟩, ⟨1⟩]
    actions := [{ id := "step", limits := [{ scope := .turn, max := 1 }] }] }

/-- The rules of that game, under the usual limits. -/
def Rules.dance : Rules := { game := .ofDefinition .dance }

/-- Where two seats start that game. -/
def State.dance : State := (Rules.dance.game.start 2 0).toOption.getD default

/-- Five steps. -/
def Move.dance : List Move := List.replicate 5 (.named "step")

/-- The number of turns that have been closed after these steps, and where they lead to. -/
def State.afterDance : Nat × State :=
  (Rules.dance.retellAll? turnsClosed Move.dance turnsClosed.first .dance).getD default

/-- After five steps the sixth turn is on, and the order is at its third seat for the second
time. -/
theorem Game.inStep_of_played_dance :
    Rules.dance.game.Told turnsClosed Move.dance 5 State.afterDance.2 ∧
      State.afterDance.2.turn = 6 ∧ State.afterDance.2.order = .fixed 5 ∧
      State.afterDance.2.active = ⟨1⟩ := by
  have hstart : Rules.dance.game.start 2 0 = .ok .dance := eq_ok_getD (by decide +kernel)
  have htold : Rules.dance.game.Told turnsClosed Move.dance State.afterDance.1 State.afterDance.2 :=
    Game.told_getD rfl hstart (by decide +kernel)
  have hfive : State.afterDance.1 = 5 := by decide +kernel
  rw [hfive] at htold
  obtain ⟨-, hstep⟩ := Game.inStep_of_played htold.played
  obtain ⟨hturn, index, hindex, hplace, hactive⟩ := hstep 5 htold (by decide)
  rw [hturn] at hplace hactive
  refine ⟨htold, UInt32.toNat_inj.1 hturn, ?_, (Option.some.inj (hactive nofun)).symm⟩
  rw [hindex, show index = 5 from UInt64.toNat_inj.1 hplace]

end Tabletop
