import Tabletop.Proofs.TurnOrder.CardDriven

/-!
# The active seat

Which seat is active and where the turn order stands are kept apart, and the one is brought in line
with the other at certain moments only: when a move has been written down, when a seat has been
passed over, when a phase is entered and when a turn starts.  In an order without cards nothing
happens to the order in between, so the active seat is always the one that the order designates.  On
a card, triggers and lasting effects can still issue grants afterwards.  If they are the first that
are pending, their holder is to move, but the next eligible seat has stayed active.

Main statement: `Game.active_of_reached`.
-/

namespace Tabletop

open Relation (ReflTransGen)

/-! ## Seats of a game -/

namespace Seat

/-- No seat of a game is listed twice. -/
theorem nodup_all (count : Nat) : (all count).Nodup := by
  refine List.Nodup.map_on ?_ List.nodup_range
  intro i hi j hj h
  have hsmall : ∀ {k : Nat}, k ∈ List.range (count % 256) → k < UInt8.size := by
    intro k hk
    have := List.mem_range.1 hk
    exact Nat.lt_of_lt_of_le this (Nat.le_of_lt (Nat.mod_lt _ (by omega)))
  have hindex := congrArg (fun s : Seat => s.index.toNat) h
  simpa only [UInt8.toNat_ofNat_of_lt' (hsmall hi),
    UInt8.toNat_ofNat_of_lt' (hsmall hj)] using hindex

/-- As many seats are listed as a game is for, up to the number of seats that indices of eight bits
can tell apart. -/
theorem length_all {count : Nat} (h : count ≤ 255) : (all count).length = count := by
  simp only [all, List.length_map, List.length_range]
  exact Nat.mod_eq_of_lt (by omega)

/-- A list with fewer seats than a game has misses one of them. -/
theorem isSome_find?_of_length_lt {count : Nat} (hcount : count ≤ 255) {seats : List Seat}
    (h : seats.length < count) :
    ((all count).find? (fun s => !seats.contains s)).isSome = true := by
  by_contra hnone
  rw [Option.not_isSome_iff_eq_none] at hnone
  have hsubset : all count ⊆ seats := by
    intro seat hseat
    have hin := List.find?_eq_none.1 hnone seat hseat
    simpa using hin
  have hle := ((nodup_all count).subperm hsubset).length_le
  rw [length_all hcount] at hle
  exact absurd h (Nat.not_lt.2 hle)

/-- Before anybody has moved, the first seat has not. -/
theorem isSome_find?_all {count : Nat} (hpositive : 0 < count) (hcount : count ≤ 255) :
    ((all count).find? (fun s => !([] : List Seat).contains s)).isSome = true :=
  isSome_find?_of_length_lt hcount hpositive

end Seat

/-! ## Orders without cards -/

namespace State

/-- The order without cards that a state keeps track of. -/
def Follows (s : State) : TurnOrder → Prop
  | .roundRobin => s.order = .roundRobin
  | .fixed _ => ∃ index, s.order = .fixed index
  | .simultaneous => (∃ submitted, s.order = .simultaneous submitted) ∧ 0 < s.seatCount ∧
      s.seatCount ≤ 255
  | .cardDriven _ => False

/-- Somebody has still to move this turn, if all seats move once a turn. -/
def Waits (s : State) (order : TurnOrder) : Prop :=
  order = .simultaneous → (s.order.designated? order s.seatCount).isSome = true

/-- The active seat is the one that the order designates, if it does so. -/
structure InLine (s : State) (order : TurnOrder) : Prop where
  follows : s.Follows order
  waits : s.Waits order
  active : ∀ seat, s.order.designated? order s.seatCount = some seat → s.active = seat

variable {s t : State} {d : Definition}

/-- An order without cards keeps no card. -/
theorem Follows.card?_eq_none {order : TurnOrder} (h : s.Follows order) :
    s.order.card? = none := by
  cases order with
  | roundRobin => rw [show s.order = .roundRobin from h]; rfl
  | fixed seats =>
    obtain ⟨index, hindex⟩ := h
    rw [hindex]
    rfl
  | simultaneous =>
    obtain ⟨⟨submitted, hsubmitted⟩, -⟩ := h
    rw [hsubmitted]
    rfl
  | cardDriven rules => cases h

/-- Such an order has no rules of cards. -/
theorem Follows.cards?_isSome {order : TurnOrder} (h : s.Follows order) :
    order.cards?.isSome = false := by
  cases order with
  | cardDriven rules => cases h
  | _ => rfl

/-- Nothing but the books of a card can be stirred. -/
theorem Stirs.order_eq (h : s.Stirs t) (hcard : s.order.card? = none) : t.order = s.order := by
  have horder := h.order
  generalize t.order = after at horder
  generalize s.order = before at horder hcard
  cases horder with
  | same => rfl
  | card => cases hcard

/-- There is no grant to use but on a card. -/
theorem consumeGrant_order (hcard : s.order.card? = none) (id : String) :
    (s.consumeGrant id).order = s.order := by
  unfold consumeGrant Tracker.modifyCard
  dsimp only
  split
  · rename_i card horder
    rw [horder] at hcard
    cases hcard
  · rfl

/-- Synchronising the active seat leaves the number of seats. -/
theorem syncActive_seatCount (s : State) (d : Definition) :
    (s.syncActive d).seatCount = s.seatCount := by
  unfold syncActive
  split <;> rfl

/-- Synchronising makes the designated seat active. -/
theorem syncActive_active {seat : Seat}
    (h : s.order.designated? d.order s.seatCount = some seat) : (s.syncActive d).active = seat := by
  unfold syncActive
  rw [h]

/-- Whether a state keeps track of an order depends on its turn order and the number of seats
only. -/
theorem Follows.congr {order : TurnOrder} (horder : t.order = s.order)
    (hcount : t.seatCount = s.seatCount) (h : s.Follows order) : t.Follows order := by
  cases order with
  | roundRobin => exact horder.trans h
  | fixed seats =>
    obtain ⟨index, hindex⟩ := h
    exact ⟨index, horder.trans hindex⟩
  | simultaneous =>
    obtain ⟨⟨submitted, hsubmitted⟩, hcounts⟩ := h
    exact ⟨⟨submitted, horder.trans hsubmitted⟩, hcount ▸ hcounts⟩
  | cardDriven rules => exact h

/-- Whether somebody has still to move depends on the turn order and the number of seats only. -/
theorem Waits.congr {order : TurnOrder} (horder : t.order = s.order)
    (hcount : t.seatCount = s.seatCount) (h : s.Waits order) : t.Waits order := by
  unfold Waits
  rw [horder, hcount]
  exact h

namespace InLine

/-- Whether the active seat is in line depends on it, on the turn order and on the number of seats
only. -/
theorem congr {order : TurnOrder} (h : s.InLine order) (horder : t.order = s.order)
    (hcount : t.seatCount = s.seatCount) (hactive : t.active = s.active) : t.InLine order where
  follows := h.follows.congr horder hcount
  waits := h.waits.congr horder hcount
  active := by
    rw [horder, hcount, hactive]
    exact h.active

/-- What stirs the books of a card leaves the active seat of an order without cards in line. -/
theorem stirs {order : TurnOrder} (h : s.InLine order) (hstirs : s.Stirs t) : t.InLine order :=
  h.congr (hstirs.order_eq h.follows.card?_eq_none) hstirs.seatCount hstirs.active

/-- The active seat is brought in line. -/
theorem syncActive {order : TurnOrder} (horder : d.order = order) (hfollows : s.Follows order)
    (hwaits : s.Waits order) : (s.syncActive d).InLine order where
  follows := hfollows.congr (s.syncActive_order d) (s.syncActive_seatCount d)
  waits := hwaits.congr (s.syncActive_order d) (s.syncActive_seatCount d)
  active := by
    intro seat hseat
    rw [s.syncActive_order, s.syncActive_seatCount, ← horder] at hseat
    exact syncActive_active hseat

/-- The start of a turn brings the active seat in line. -/
theorem rotate {order : TurnOrder} (horder : d.order = order) (h : s.Follows order) :
    (s.rotate d).InLine order := by
  cases order with
  | roundRobin =>
    have hs : s.order = .roundRobin := h
    have hrotate : s.rotate d =
        { s with active := s.active.next s.seatCount }.syncActive d := by
      simp [State.rotate, hs]
    rw [hrotate]
    exact .syncActive horder hs (fun hne => by cases hne)
  | fixed seats =>
    obtain ⟨index, hs⟩ := h
    have hrotate : s.rotate d = { s with order := .fixed (index + 1) }.syncActive d := by
      simp [State.rotate, hs]
    rw [hrotate]
    exact .syncActive horder ⟨index + 1, rfl⟩ (fun hne => by cases hne)
  | simultaneous =>
    obtain ⟨⟨submitted, hs⟩, hcount⟩ := h
    have hrotate : s.rotate d = { s with order := .simultaneous [] }.syncActive d := by
      simp [State.rotate, hs]
    rw [hrotate]
    refine .syncActive horder ⟨⟨[], rfl⟩, hcount⟩ (fun _ => ?_)
    exact Seat.isSome_find?_all hcount.1 hcount.2
  | cardDriven rules => cases h

/-- A seat that has moved is written down, and unless that ends the turn the active seat is brought
in line. -/
theorem afterMove {order : TurnOrder} (horder : d.order = order) (h : s.Follows order) (m : Move) :
    (s.afterMove d m).2.Follows order ∧
      ((s.afterMove d m).1.turnEnded = false → (s.afterMove d m).2.InLine order) := by
  by_cases hall : order = .simultaneous
  · subst hall
    obtain ⟨⟨submitted, hs⟩, hcount⟩ := h
    generalize hmoved : (if submitted.contains s.active then submitted
      else submitted ++ [s.active]) = moved
    have hafter : s.afterMove d m =
        ({ turnEnded := s.seatCount ≤ moved.length },
          { s with order := .simultaneous moved }.syncActive d) := by
      simp only [State.afterMove, horder, hs, hmoved]
      rfl
    have hfollows : { s with order := .simultaneous moved }.Follows .simultaneous :=
      ⟨⟨moved, rfl⟩, hcount⟩
    rw [hafter]
    refine ⟨hfollows.congr (syncActive_order _ _) (syncActive_seatCount _ _), fun hended => ?_⟩
    refine .syncActive horder hfollows (fun _ => ?_)
    -- If all had moved, the turn would have ended.
    have hmore : ¬s.seatCount ≤ moved.length := by simpa using hended
    exact Seat.isSome_find?_of_length_lt hcount.2 (Nat.lt_of_not_le hmore)
  · have hafter : s.afterMove d m = ({}, s.syncActive d) := by
      cases order with
      | roundRobin => simp [State.afterMove, horder]
      | fixed seats => simp [State.afterMove, horder]
      | simultaneous => exact absurd rfl hall
      | cardDriven rules => cases h
    have hline : (s.syncActive d).InLine order :=
      .syncActive horder h (fun hsimultaneous => absurd hsimultaneous hall)
    rw [hafter]
    exact ⟨hline.follows, fun _ => hline⟩

/-- Where the active seat is in line, bringing it in line changes nothing. -/
theorem syncActive_eq (h : s.InLine d.order) : s.syncActive d = s := by
  unfold State.syncActive
  split
  · rename_i seat hseat
    rw [← h.active seat hseat]
  · rfl

/-- Where seats simply take turns, a move is not written down at all. -/
theorem afterMove_eq (h : s.InLine d.order) (hsubmits : d.order ≠ .simultaneous) (m : Move) :
    s.afterMove d m = ({}, s) := by
  have hfollows := h.follows
  have hsynced := h.syncActive_eq
  cases horder : d.order with
  | roundRobin => simp [State.afterMove, horder, hsynced]
  | fixed seats => simp [State.afterMove, horder, hsynced]
  | simultaneous => exact absurd horder hsubmits
  | cardDriven rules =>
    rw [horder] at hfollows
    cases hfollows

/-- Whatever happens on the way to the next decision leaves the active seat in line. -/
theorem turns {order : TurnOrder} (horder : d.order = order) (h : s.InLine order)
    (hstep : s.Turns d t) : t.InLine order := by
  cases hstep with
  | stirs hstirs => exact h.stirs hstirs
  | rotate => exact .rotate horder h.follows
  | sync => exact .syncActive horder h.follows h.waits
  | skip =>
    have hcards : d.order.cards? = none := by
      have hfollows := h.follows
      rw [horder]
      cases order with
      | cardDriven rules => cases hfollows
      | roundRobin => rfl
      | fixed seats => rfl
      | simultaneous => rfl
    simp only [skipStuckSeat, hcards]
    exact h

/-- Going on to the next decision keeps the active seat in line. -/
theorem goesOn {order : TurnOrder} (horder : d.order = order) (h : s.InLine order)
    (hon : s.GoesOn d t) : t.InLine order := by
  induction hon with
  | refl => exact h
  | tail _ hstep ih => exact ih.turns horder hstep

end InLine

end State

namespace Rules

variable {r : Rules} {s : State} {m : Move} {x : Resolution} {order : TurnOrder}

/-- While a move is carried out, an order without cards stays where it is. -/
theorem carryOut_order {p : Progress} (hcard : s.order.card? = none) (hx : r.resolve s m = .ok x)
    (hp : r.carryOut m s.active x = .ok p) :
    p.state.order = s.order ∧ p.state.seatCount = s.seatCount ∧ p.state.active = s.active := by
  obtain ⟨s₁, hbefore, hafter⟩ := carryOut_stirs hx hp
  have horder₁ := hbefore.order_eq hcard
  have hspent : (s₁.spendGrant x.grant).order = s₁.order ∧
      (s₁.spendGrant x.grant).seatCount = s₁.seatCount ∧
      (s₁.spendGrant x.grant).active = s₁.active := by
    cases x.grant with
    | none => exact ⟨rfl, rfl, rfl⟩
    | some id => exact ⟨State.consumeGrant_order (horder₁ ▸ hcard) id, rfl, rfl⟩
  obtain ⟨horder, hcount, hactive⟩ := hspent
  refine ⟨?_, ?_, ?_⟩
  · rw [hafter.order_eq (by rw [horder, horder₁]; exact hcard), horder, horder₁]
  · rw [hafter.seatCount, hcount, hbefore.seatCount]
  · rw [hafter.active, hactive, hbefore.active]

/-- Carrying a resolved move out keeps the active seat in line. -/
theorem inLine_carryOut {p : Progress} (h : s.InLine order) (hx : r.resolve s m = .ok x)
    (hp : r.carryOut m s.active x = .ok p) : p.state.InLine order := by
  obtain ⟨horder, hcount, hactive⟩ := carryOut_order h.follows.card?_eq_none hx hp
  exact h.congr horder hcount hactive

/-- A move leaves the active seat in line, wherever it comes to. -/
theorem inLine_of_comesTo {q : Progress} (horder : r.definition.order = order) (h : s.InLine order)
    (hcomes : r.ComesTo s m q) : q.state.InLine order := by
  obtain ⟨x, p, hx, hp, hcloses⟩ := course_of_comesTo hcomes
  -- Where the turn has ended all seats may have moved; the rotation puts that right.
  obtain ⟨hfollows, hline⟩ := State.InLine.afterMove horder (inLine_carryOut h hx hp).follows m
  unfold State.Closes at hcloses
  split at hcloses
  · obtain ⟨s', hs', hon⟩ := hcloses
    have hfollows' : s'.Follows order :=
      hfollows.congr (hs'.order_eq hfollows.card?_eq_none) hs'.seatCount
    exact (State.InLine.rotate horder hfollows').goesOn horder hon
  · rename_i hended
    exact (hline (by simpa using hended)).goesOn horder hcloses

/-- A move keeps the active seat in line. -/
theorem inLine_of_makeMove {res : MoveResult} (horder : r.definition.order = order)
    (h : s.InLine order) (hmove : r.makeMove s m = .ok res) : res.state.InLine order := by
  obtain ⟨q, hcomes, -, hres⟩ := comesTo_of_makeMove hmove
  rw [hres]
  exact (inLine_of_comesTo horder h hcomes).stirs (.stamp _)

end Rules

/-! ## A game -/

namespace Game

variable {g : Game} {s : State}

/-- A game starts with the active seat in line. -/
theorem inLine_of_start {count : Nat} {seed : UInt64} {order : TurnOrder}
    (horder : g.definition.order = order) (hcards : order.cards? = none)
    (h : g.start count seed = .ok s) : s.InLine order := by
  obtain ⟨blank, t, hblank, hstirs, rfl⟩ := course_of_start h
  obtain ⟨hinitial, hcount, hpositive, hsmall, hsynced⟩ := blank_eq_ok hblank
  rw [horder] at hinitial
  have hfollows : blank.Follows order := by
    cases order with
    | roundRobin => exact hinitial
    | fixed seats => exact ⟨0, hinitial⟩
    | simultaneous => exact ⟨⟨[], hinitial⟩, hcount.symm ▸ ⟨hpositive, hsmall⟩⟩
    | cardDriven rules => cases hcards
  have hwaits : blank.Waits order := by
    rintro rfl
    rw [hinitial, hcount]
    exact Seat.isSome_find?_all hpositive hsmall
  have hline : (blank.syncActive g.definition).InLine order := .syncActive horder hfollows hwaits
  rw [hsynced] at hline
  exact ((hline.stirs hstirs).goesOn horder (.single (.sync t))).stirs (.stamp _)

/-- In an order without cards the active seat is always in line. -/
theorem Reached.inLine {order : TurnOrder} (horder : g.definition.order = order)
    (hcards : order.cards? = none) {history : List TraceEntry} (h : g.Reached history s) :
    s.InLine order := by
  induction h with
  | start h => exact inLine_of_start horder hcards h
  | move hprior hgame hmove ih =>
    subst hgame
    exact Rules.inLine_of_makeMove horder ih hmove

/-- In a fixed order the seat is active at whose place the order stands. -/
theorem Reached.fixed {seats : List Seat} (horder : g.definition.order = .fixed seats)
    {history : List TraceEntry} (h : g.Reached history s) :
    ∃ index, s.order = .fixed index ∧
      (seats ≠ [] → seats[index.toNat % seats.length]? = some s.active) := by
  have hline := h.inLine horder rfl
  obtain ⟨index, hindex⟩ := hline.follows
  refine ⟨index, hindex, fun hne => ?_⟩
  have hbound : index.toNat % seats.length < seats.length :=
    Nat.mod_lt _ (List.length_pos_iff.2 hne)
  have hactive := hline.active seats[index.toNat % seats.length] (by
    simp [Tracker.designated?, hindex, hne])
  rw [hactive, List.getElem?_eq_getElem hbound]

/-- On a card on which no grants are pending the active seat is to move. -/
theorem seat?_of_onCard {rules : CardRules} {card : CardState} (h : s.OnCard rules card)
    (hnone : card.grants = []) : card.seat? = some s.active := by
  rw [CardState.seat?_of_grants_nil hnone]
  exact h.awaits.nextEligible? hnone

/-- In every state that is reached the active seat is the one that the order designates, except on a
card: there the next eligible seat can be active while grants are pending. -/
theorem active_of_reached {history : List TraceEntry} (h : g.Reached history s) :
    match g.definition.order with
    | .roundRobin => s.order = .roundRobin
    | .fixed seats => ∃ index, s.order = .fixed index ∧
        (seats ≠ [] → seats[index.toNat % seats.length]? = some s.active)
    | .simultaneous => ∃ submitted, s.order = .simultaneous submitted ∧
        (Seat.all s.seatCount).find? (fun seat => !submitted.contains seat) = some s.active
    | .cardDriven _ => ∃ card, s.order = .cardDriven card ∧
        (card.seat? = some s.active ∨
          card.grants ≠ [] ∧ card.nextEligible? = some s.active) := by
  cases horder : g.definition.order with
  | roundRobin => exact (h.inLine horder rfl).follows
  | fixed seats => exact h.fixed horder
  | simultaneous =>
    have hline := h.inLine horder rfl
    obtain ⟨⟨submitted, hsubmitted⟩, -⟩ := hline.follows
    obtain ⟨seat, hseat⟩ := Option.isSome_iff_exists.1 (hline.waits rfl)
    refine ⟨submitted, hsubmitted, ?_⟩
    rw [hline.active seat hseat, ← hseat, hsubmitted]
    rfl
  | cardDriven rules =>
    obtain ⟨card, hcard⟩ := h.onCard horder
    refine ⟨card, hcard.order, ?_⟩
    by_cases hnone : card.grants = []
    · exact .inl (seat?_of_onCard hcard hnone)
    · exact hcard.awaits.seat.imp_right (fun hnext => ⟨hnone, hnext⟩)

end Game

/-! ## A relief -/

/-- A game in which every turn starts with a free operation for the first seat. -/
def Definition.relief : Definition :=
  { Definition.minimal "relief" with
    order := .cardDriven { seats := [⟨0⟩, ⟨1⟩], maxActing := 1, passAction := some "pass" }
    actions := [{ id := "pass" }, { id := "rally" }]
    triggers := [{
      id := "relief", pattern := .turnStart
      effects := [.grantFreeOperation { seat := .id ⟨0⟩ }] }] }

/-- The rules of that game, under the usual limits. -/
def Rules.relief : Rules := { game := .ofDefinition .relief }

/-- Where two seats start that game. -/
def State.relief : State := (Rules.relief.game.start 2 0).toOption.getD default

/-- Once the first seat has acted, the card is over and the second seat is active on the next one;
then the turn starts, and the first seat is to move. -/
theorem Game.active_of_reached_relief :
    ∃ history res card, Rules.relief.makeMove .relief (.named "rally") = .ok res ∧
      Rules.relief.game.Reached history res.state ∧ res.state.order = .cardDriven card ∧
      card.seat? = some ⟨0⟩ ∧ res.state.active = ⟨1⟩ ∧ card.nextEligible? = some ⟨1⟩ := by
  obtain ⟨res, hres⟩ : ∃ res, Rules.relief.makeMove .relief (.named "rally") = .ok res :=
    exists_ok_of_isOk (by decide +kernel)
  have hstart : Rules.relief.game.start 2 0 = .ok .relief := eq_ok_getD (by decide +kernel)
  have hreached := (Game.Reached.start hstart).move rfl hres
  obtain ⟨card, hcard, hactive⟩ := Game.active_of_reached hreached
  have hseats : (Rules.relief.makeMove .relief (.named "rally")).toOption.map (fun res =>
      (res.state.active, res.state.order.card?.bind CardState.seat?)) =
        some (⟨1⟩, some ⟨0⟩) := by decide +kernel
  rw [hres] at hseats
  obtain ⟨hone, hzero⟩ := Prod.ext_iff.1 (Option.some.inj hseats)
  have hholder : card.seat? = some ⟨0⟩ := by simpa [hcard, Tracker.card?] using hzero
  refine ⟨_, res, card, hres, hreached, hcard, hholder, hone, ?_⟩
  rw [show res.state.active = ⟨1⟩ from hone, hholder] at hactive
  exact (hactive.resolve_left (by decide)).2

end Tabletop
