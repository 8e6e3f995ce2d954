import Mathlib.Data.List.Find
import Tabletop.Proofs.Play.Chronicle
import Tabletop.Proofs.TurnOrder.ActiveSeat
import Tabletop.Proofs.TurnOrder.Closing

/-!
# Moving all at once

Where all seats move once a turn, they are asked one after the other, in the order of their seats.
The turn ends when all of them have moved.  But it ends as well when a seat cannot move and no phase
follows; nothing passes over a single seat in this order.  So a seat that is stuck to the end of the
last phase costs all later seats their turn, and nobody has asked them.

Main statement: `Game.rolls_of_played`, with a council in which one seat has no vote.
-/

namespace Tabletop

/-! ## One seat after the other -/

/-- The first item that is not among the first `k` of a list without repetitions is the next one. -/
theorem find?_not_mem_take {α : Type} [BEq α] [LawfulBEq α] :
    ∀ {l : List α} (k : Nat), l.Nodup → l.find? (fun x => !(l.take k).contains x) = l[k]?
  | [], k, _ => by simp
  | x :: l, 0, _ => by simp
  | x :: l, k + 1, h => by
    obtain ⟨hx, hl⟩ := List.nodup_cons.1 h
    have hrest : l.find? (fun y => !((x :: l).take (k + 1)).contains y) =
        l.find? (fun y => !(l.take k).contains y) := by
      refine List.find?_congr (fun y hy => ?_)
      have hne : y ≠ x := fun hyx => hx (hyx ▸ hy)
      simp [hne]
    rw [List.find?_cons_of_neg (by simp), hrest, find?_not_mem_take k hl]
    rfl

/-- In a list without repetitions an item does not occur before its place. -/
theorem not_mem_take {α : Type} [BEq α] [LawfulBEq α] {l : List α} {k : Nat} {x : α} (h : l.Nodup)
    (hx : l[k]? = some x) : x ∉ l.take k := by
  have hfirst := List.find?_some ((find?_not_mem_take k h).trans hx)
  simpa using hfirst

namespace State

/-- The seats are asked one after the other, and it is the turn of seat number `k`. -/
structure Polling (s : State) (k : Nat) : Prop where
  order : s.order = .simultaneous ((Seat.all s.seatCount).take k)
  active : (Seat.all s.seatCount)[k]? = some s.active
  count_le : s.seatCount ≤ 255

variable {s t : State} {d : Definition} {k : Nat}

/-- The seat that is to move when the first `k` seats have moved. -/
theorem designated?_of_take (h : s.order = .simultaneous ((Seat.all s.seatCount).take k))
    (order : TurnOrder) :
    s.order.designated? order s.seatCount = (Seat.all s.seatCount)[k]? := by
  rw [h, Tracker.designated?, find?_not_mem_take k (Seat.nodup_all _)]

/-- Bringing the active seat in line makes it the turn of the next seat, if there is one. -/
theorem polling_syncActive (horder : s.order = .simultaneous ((Seat.all s.seatCount).take k))
    (hcount : s.seatCount ≤ 255) (hlt : k < s.seatCount) : (s.syncActive d).Polling k := by
  obtain ⟨seat, hseat⟩ : ∃ seat, (Seat.all s.seatCount)[k]? = some seat := by
    rw [← Seat.length_all hcount] at hlt
    exact ⟨_, List.getElem?_eq_getElem hlt⟩
  have hdesignated := (designated?_of_take horder d.order).trans hseat
  refine ⟨?_, ?_, ?_⟩
  · rw [s.syncActive_order, s.syncActive_seatCount]
    exact horder
  · rw [s.syncActive_seatCount, syncActive_active hdesignated]
    exact hseat
  · rw [s.syncActive_seatCount]
    exact hcount

namespace Polling

/-- The seat that is asked is one of the game. -/
theorem lt (h : s.Polling k) : k < s.seatCount := by
  obtain ⟨hlt, -⟩ := List.getElem?_eq_some_iff.1 h.active
  rwa [Seat.length_all h.count_le] at hlt

/-- Polling is a matter of the order, the number of seats and the active seat. -/
theorem congr (h : s.Polling k) (horder : t.order = s.order) (hcount : t.seatCount = s.seatCount)
    (hactive : t.active = s.active) : t.Polling k where
  order := by rw [horder, hcount, h.order]
  active := by rw [hcount, hactive, h.active]
  count_le := hcount ▸ h.count_le

/-- While seats are polled no card is being played. -/
theorem card?_eq_none (h : s.Polling k) : s.order.card? = none := by
  rw [h.order]
  rfl

/-- Polling is not disturbed when the turn order is stirred. -/
theorem stirs (h : s.Polling k) (hstirs : s.Stirs t) : t.Polling k :=
  h.congr (hstirs.order_eq h.card?_eq_none) hstirs.seatCount hstirs.active

/-- Bringing the active seat in line changes nothing. -/
theorem syncActive (h : s.Polling k) : (s.syncActive d).Polling k :=
  polling_syncActive h.order h.count_le h.lt

/-- The active seat comes to those that have moved. -/
theorem take_succ (h : s.Polling k) :
    (Seat.all s.seatCount).take k ++ [s.active] = (Seat.all s.seatCount).take (k + 1) := by
  rw [List.take_add_one, h.active]
  rfl

/-- The seat that is asked is none of those that have moved. -/
theorem active_not_mem (h : s.Polling k) : s.active ∉ (Seat.all s.seatCount).take k :=
  not_mem_take (Seat.nodup_all _) h.active

/-- A move is written down, and it ends the turn if it was the turn of the last seat.  Then the next
seat is active, or still the last. -/
theorem afterMove_eq (h : s.Polling k) (hsubmits : d.order = .simultaneous) (m : Move) :
    s.afterMove d m = ({ turnEnded := s.seatCount ≤ k + 1 },
      { s with order := .simultaneous ((Seat.all s.seatCount).take (k + 1)) }.syncActive d) := by
  have hlength : ((Seat.all s.seatCount).take (k + 1)).length = k + 1 := by
    rw [List.length_take, Seat.length_all h.count_le]
    exact Nat.min_eq_left h.lt
  unfold State.afterMove
  rw [hsubmits, h.order]
  simp only [List.contains_eq_mem, h.active_not_mem, decide_false, Bool.false_eq_true, if_false,
    h.take_succ, hlength]
  rfl

/-- When the last seat has moved, it stays active until the turn has ended. -/
theorem active_afterMove (h : s.Polling k) (hsubmits : d.order = .simultaneous) {m : Move}
    (hended : (s.afterMove d m).1.turnEnded = true) : (s.afterMove d m).2.active = s.active := by
  rw [h.afterMove_eq hsubmits] at hended ⊢
  have hall : s.seatCount ≤ k + 1 := of_decide_eq_true hended
  have hnone : (Seat.all s.seatCount)[k + 1]? = none := by
    rw [List.getElem?_eq_none_iff, Seat.length_all h.count_le]
    exact hall
  have hdesignated : Tracker.designated? (.simultaneous ((Seat.all s.seatCount).take (k + 1)))
      d.order s.seatCount = none :=
    (designated?_of_take (s := { s with order := .simultaneous _ }) rfl d.order).trans hnone
  unfold State.syncActive
  simp only [State.seatCount] at hdesignated ⊢
  rw [hdesignated]

/-- Unless a move ends the turn, it is the turn of the next seat. -/
theorem afterMove (h : s.Polling k) (hsubmits : d.order = .simultaneous) {m : Move}
    (hended : (s.afterMove d m).1.turnEnded = false) : (s.afterMove d m).2.Polling (k + 1) := by
  rw [h.afterMove_eq hsubmits] at hended ⊢
  exact polling_syncActive rfl h.count_le (Nat.lt_of_not_le (of_decide_eq_false hended))

end Polling

/-- Rotating the order leaves the number of seats. -/
theorem rotate_seatCount (s : State) (d : Definition) : (s.rotate d).seatCount = s.seatCount := by
  unfold rotate
  rw [syncActive_seatCount]
  split <;> rfl

/-- A turn starts with the first seat. -/
theorem polling_rotate {submitted : List Seat} (h : s.order = .simultaneous submitted)
    (hpositive : 0 < s.seatCount) (hcount : s.seatCount ≤ 255) : (s.rotate d).Polling 0 := by
  have hrotate : s.rotate d = { s with order := .simultaneous [] }.syncActive d := by
    simp [rotate, h]
  rw [hrotate]
  exact polling_syncActive rfl hcount hpositive

end State

namespace Rules

variable {r : Rules} {s : State} {m : Move} {x : Resolution} {p p' q : Progress} {k : Nat}

/-- While a move is carried out the same seat is being asked. -/
theorem polling_carryOut (h : s.Polling k) (hx : r.resolve s m = .ok x)
    (hp : r.carryOut m s.active x = .ok p) : p.state.Polling k := by
  obtain ⟨horder, hcount, hactive⟩ := carryOut_order h.card?_eq_none hx hp
  exact h.congr horder hcount hactive

/-- When a turn has been closed, the first seat is asked. -/
theorem polling_of_endTurn {submitted : List Seat}
    (horder : p.state.order = .simultaneous submitted)
    (hpositive : 0 < p.state.seatCount) (hcount : p.state.seatCount ≤ 255)
    (h : r.endTurn p = .ok q) : q.state.seatCount = p.state.seatCount ∧ q.state.Polling 0 := by
  obtain ⟨p', s, hbefore, hstart, hafter⟩ := endTurn_eq_ok h
  have hsame := hbefore.state.seatCount
  have horder' : p'.state.order = .simultaneous submitted := by
    rw [hbefore.state.order_eq (by rw [horder]; rfl), horder]
  have hrotated : (p'.state.rotate r.definition).Polling 0 :=
    State.polling_rotate horder' (hsame ▸ hpositive) (hsame ▸ hcount)
  have hstirs := (startTurn_rotates hstart).trans hafter.state
  refine ⟨?_, hrotated.stirs hstirs⟩
  rw [hstirs.seatCount, State.rotate_seatCount, hsame]

/-- After a move it is the turn of the next seat, or all have moved and the next turn has
started. -/
theorem polling_of_setsOut (hsubmits : r.definition.order = .simultaneous) (h : s.Polling k)
    (hx : r.resolve s m = .ok x) (hcarried : r.carryOut m s.active x = .ok p)
    (hout : r.SetsOut m p p') :
    p'.state.seatCount = s.seatCount ∧
      (p'.state.turn = s.turn ∧ p'.state.Polling (k + 1) ∨
        p'.state.turn = s.turn + 1 ∧ s.seatCount = k + 1 ∧ p'.state.Polling 0) := by
  obtain ⟨pushed, hpushed⟩ := carryOut_interrupted hx hcarried
  have hfollowed := State.SameMoment.afterMove p.state r.definition m
  have hturn := hfollowed.turn.trans hpushed.turn
  have hsame := (carryOut_order h.card?_eq_none hx hcarried).2.1
  have hcarried := polling_carryOut h hx hcarried
  have hcount : (p.state.afterMove r.definition m).2.seatCount = s.seatCount := by
    rw [hcarried.afterMove_eq hsubmits, State.syncActive_seatCount]
    exact hsame
  rcases setsOut_iff.1 hout with ⟨hended, hout⟩ | ⟨hended, rfl⟩
  · have hlast : s.seatCount = k + 1 := by
      rw [hcarried.afterMove_eq hsubmits, hsame] at hended
      exact Nat.le_antisymm (of_decide_eq_true hended) h.lt
    have horder : (p.state.afterMove r.definition m).2.order =
        .simultaneous ((Seat.all p.state.seatCount).take (k + 1)) := by
      rw [hcarried.afterMove_eq hsubmits, State.syncActive_order]
    obtain ⟨hkept, hpolling⟩ := polling_of_endTurn (p := p.withState _) horder
      (hcount.symm ▸ Nat.zero_lt_of_lt h.lt) (hcount.symm ▸ h.count_le) hout
    exact ⟨hkept.trans hcount,
      .inr ⟨((endTurn_nextTurn hout).of_turn hturn).turn, hlast, hpolling⟩⟩
  · exact ⟨hcount, .inl ⟨hturn, hcarried.afterMove hsubmits hended⟩⟩

/-- A transition leaves it the turn of the same seat, or the next turn has started. -/
theorem polling_of_transition (hsubmits : r.definition.order = .simultaneous)
    (h : p.state.Polling k) (htransition : r.transition p = .ok q) :
    q.state.seatCount = p.state.seatCount ∧
      (q.state.turn = p.state.turn ∧ q.state.Polling k ∨
        q.state.turn = p.state.turn + 1 ∧ q.state.Polling 0) := by
  have hcards : r.definition.order.cards?.isSome = false := by
    rw [hsubmits]
    rfl
  rcases ends_of_transition htransition with ⟨p', hends⟩ | ⟨hturn, hlingers⟩
  · obtain rfl := hends.eq hcards
    obtain ⟨hkept, hpolling⟩ :=
      polling_of_endTurn h.order (Nat.zero_lt_of_lt h.lt) h.count_le hends.endTurn
    exact ⟨hkept, .inr ⟨(endTurn_nextTurn hends.endTurn).turn, hpolling⟩⟩
  · obtain ⟨u, hstirs, hrest⟩ := hlingers hcards
    rcases hrest with hrest | hrest
    · have hall := hstirs.trans hrest
      exact ⟨hall.seatCount, .inl ⟨hturn, h.stirs hall⟩⟩
    · refine ⟨?_, .inl ⟨hturn, (h.stirs hstirs).syncActive.stirs hrest⟩⟩
      rw [hrest.seatCount, State.syncActive_seatCount, hstirs.seatCount]

/-- Wherever a move comes to, it is the turn of some seat. -/
theorem polling_of_comesTo (hsubmits : r.definition.order = .simultaneous) (h : s.Polling k)
    (hcomes : r.ComesTo s m q) : ∃ k, q.state.Polling k := by
  obtain ⟨x, p, p', n, hx, hcarried, hout, hpasses⟩ := hcomes
  refine hpasses.invariant (P := fun s => ∃ k, s.Polling k) ?_ ?_
  · rintro p q htransition ⟨k, hk⟩
    obtain ⟨-, ⟨-, hpolling⟩ | ⟨-, hpolling⟩⟩ := polling_of_transition hsubmits hk htransition
    · exact ⟨k, hpolling⟩
    · exact ⟨0, hpolling⟩
  · obtain ⟨-, ⟨-, hpolling⟩ | ⟨-, -, hpolling⟩⟩ := polling_of_setsOut hsubmits h hx hcarried hout
    · exact ⟨k + 1, hpolling⟩
    · exact ⟨0, hpolling⟩

end Rules

/-! ## Rolls -/

/-- Who has been asked in a turn: each seat that has moved, and each that was stuck when the game
went on. -/
structure Roll where
  moved : List Seat := []
  stuck : List Seat := []
  deriving DecidableEq, Repr, Inhabited

namespace Roll

/-- Every seat has moved or was stuck. -/
def Fair (roll : Roll) (count : Nat) : Prop :=
  ∀ seat ∈ Seat.all count, seat ∈ roll.moved ∨ seat ∈ roll.stuck

/-- The first `k` seats have moved, and only these and the next one have been asked. -/
structure Reaches (roll : Roll) (count k : Nat) : Prop where
  moved : roll.moved = (Seat.all count).take k
  stuck : ∀ seat ∈ roll.stuck, seat ∈ (Seat.all count).take (k + 1)

/-- The turn has been closed when the first `k` seats had moved: they were all, or the next one was
stuck. -/
structure Closed (roll : Roll) (count k : Nat) : Prop extends roll.Reaches count k where
  le : k ≤ count
  last : ∀ seat, (Seat.all count)[k]? = some seat → seat ∈ roll.stuck

variable {roll : Roll} {count k : Nat}

/-- A new roll has asked nobody. -/
theorem reaches_zero (count : Nat) : ({} : Roll).Reaches count 0 := ⟨rfl, nofun⟩

/-- The seat whose turn it is moves. -/
theorem Reaches.move (h : roll.Reaches count k) {seat : Seat}
    (hseat : (Seat.all count)[k]? = some seat) :
    Reaches { roll with moved := roll.moved ++ [seat] } count (k + 1) where
  moved := by
    rw [h.moved, List.take_add_one, hseat]
    rfl
  stuck other hother := List.take_subset_take_left _ (Nat.le_succ _) (h.stuck other hother)

/-- The seat whose turn it is is stuck. -/
theorem Reaches.pass (h : roll.Reaches count k) {seat : Seat}
    (hseat : (Seat.all count)[k]? = some seat) :
    Reaches { roll with stuck := roll.stuck ++ [seat] } count k where
  moved := h.moved
  stuck other hother := by
    rcases List.mem_append.1 hother with hbefore | hlast
    · exact h.stuck other hbefore
    · rw [List.mem_singleton.1 hlast, List.take_add_one, hseat]
      simp

/-- Later seats have not been asked. -/
theorem Reaches.not_mem (h : roll.Reaches count k) {i : Nat} (hi : k < i) {seat : Seat}
    (hseat : (Seat.all count)[i]? = some seat) : seat ∉ roll.moved ∧ seat ∉ roll.stuck := by
  have hlater := not_mem_take (Seat.nodup_all _) hseat
  refine ⟨fun hmoved => hlater ?_, fun hstuck => hlater ?_⟩
  · rw [h.moved] at hmoved
    exact List.take_subset_take_left _ (Nat.le_of_lt hi) hmoved
  · exact List.take_subset_take_left _ hi (h.stuck _ hstuck)

/-- All seats have been asked exactly if no more than one of them has not moved. -/
theorem Closed.fair_iff (h : roll.Closed count k) (hcount : count ≤ 255) :
    roll.Fair count ↔ count ≤ k + 1 := by
  constructor
  · intro hfair
    by_contra hmore
    have hlt : k + 1 < (Seat.all count).length := by
      rw [Seat.length_all hcount]
      exact Nat.lt_of_not_le hmore
    obtain ⟨hmoved, hstuck⟩ := h.not_mem (Nat.lt_succ_self k) (List.getElem?_eq_getElem hlt)
    exact (hfair _ (List.getElem_mem hlt)).elim hmoved hstuck
  · intro hall seat hseat
    obtain ⟨i, hi, rfl⟩ := List.getElem_of_mem hseat
    have hfew := hi
    rw [Seat.length_all hcount] at hfew
    rcases Nat.lt_or_ge i k with hbefore | hlast
    · left
      rw [h.moved]
      exact List.mem_take_iff_getElem.2 ⟨i, by omega, rfl⟩
    · obtain rfl : i = k := by omega
      exact .inr (h.last _ (List.getElem?_eq_getElem hi))

end Roll

/-- Who has been asked in the turns that have been closed, and in the current one. -/
structure Rolls where
  closed : List Roll := []
  current : Roll := {}
  deriving Inhabited

namespace Rolls

/-- The current roll has been continued on the way from a state to another; a new one is begun with
the next turn. -/
def turnTo (a : Rolls) (roll : Roll) (s t : State) : Rolls :=
  if t.turn = s.turn then { a with current := roll } else { closed := a.closed ++ [roll] }

/-- The chronicle of who has been asked: the seat that makes a move, and the active seat wherever
there is nothing to decide. -/
def chronicle : Chronicle Rolls where
  first := {}
  move a s _ t := a.turnTo { a.current with moved := a.current.moved ++ [s.active] } s t
  pass a s t := a.turnTo { a.current with stuck := a.current.stuck ++ [s.active] } s t

/-- What the rolls say when it is the turn of seat number `k`. -/
structure Says (a : Rolls) (s : State) (k : Nat) : Prop where
  polling : s.Polling k
  current : a.current.Reaches s.seatCount k
  closed : ∀ roll ∈ a.closed, ∃ k, roll.Closed s.seatCount k
  turn : s.turn = UInt32.ofNat (a.closed.length + 1)

variable {a : Rolls} {roll : Roll} {s t : State} {k k' : Nat}

/-- Within a turn the current roll is continued. -/
theorem Says.stay (h : a.Says s k) (hcount : t.seatCount = s.seatCount) (hturn : t.turn = s.turn)
    (hpolling : t.Polling k') (hroll : roll.Reaches s.seatCount k') :
    (a.turnTo roll s t).Says t k' := by
  unfold turnTo
  rw [if_pos hturn]
  refine ⟨hpolling, hcount ▸ hroll, ?_, hturn.trans h.turn⟩
  rw [hcount]
  exact h.closed

/-- With the next turn a new roll is begun. -/
theorem Says.close (h : a.Says s k) (hcount : t.seatCount = s.seatCount)
    (hturn : t.turn = s.turn + 1) (hpolling : t.Polling 0) (hroll : roll.Closed s.seatCount k') :
    (a.turnTo roll s t).Says t 0 := by
  unfold turnTo
  rw [if_neg (by rw [hturn]; simp)]
  refine ⟨hpolling, Roll.reaches_zero _, fun other hother => ?_, ?_⟩
  · rw [hcount]
    rcases List.mem_append.1 hother with hbefore | hlast
    · exact h.closed other hbefore
    · rw [List.mem_singleton.1 hlast]
      exact ⟨k', hroll⟩
  · rw [hturn, h.turn, List.length_append, UInt32.ofNat_add (_ + _)]
    rfl

variable {r : Rules} {m : Move} {x : Resolution} {p p' q : Progress}

/-- The seat that moves comes to the current roll.  If it was the last one, the roll is closed. -/
theorem Says.move (hsubmits : r.definition.order = .simultaneous) (h : a.Says s k)
    (hx : r.resolve s m = .ok x) (hcarried : r.carryOut m s.active x = .ok p)
    (hout : r.SetsOut m p p') : ∃ k, (chronicle.move a s m p'.state).Says p'.state k := by
  have hmoved := h.current.move h.polling.active
  obtain ⟨hcount, ⟨hturn, hpolling⟩ | ⟨hturn, hall, hpolling⟩⟩ :=
    Rules.polling_of_setsOut hsubmits h.polling hx hcarried hout
  · exact ⟨k + 1, h.stay hcount hturn hpolling hmoved⟩
  · have hnobody : ∀ seat, (Seat.all s.seatCount)[k + 1]? ≠ some seat := by
      intro seat hseat
      obtain ⟨hlt, -⟩ := List.getElem?_eq_some_iff.1 hseat
      rw [Seat.length_all h.polling.count_le, hall] at hlt
      exact Nat.lt_irrefl _ hlt
    have hclosed : Roll.Closed _ s.seatCount (k + 1) :=
      ⟨hmoved, hall.ge, fun seat hseat => absurd hseat (hnobody seat)⟩
    exact ⟨0, h.close hcount hturn hpolling hclosed⟩

/-- The seat that is stuck comes to the current roll.  If no phase follows, the roll is closed. -/
theorem Says.pass (hsubmits : r.definition.order = .simultaneous) (h : a.Says p.state k)
    (htransition : r.transition p = .ok q) :
    ∃ k, (chronicle.pass a p.state q.state).Says q.state k := by
  have hstuck := h.current.pass h.polling.active
  obtain ⟨hcount, ⟨hturn, hpolling⟩ | ⟨hturn, hpolling⟩⟩ :=
    Rules.polling_of_transition hsubmits h.polling htransition
  · exact ⟨k, h.stay hcount hturn hpolling hstuck⟩
  · have hlast : ∀ seat, (Seat.all p.state.seatCount)[k]? = some seat →
        seat ∈ a.current.stuck ++ [p.state.active] := by
      intro seat hseat
      rw [h.polling.active] at hseat
      rw [← Option.some.inj hseat]
      simp
    exact ⟨0, h.close hcount hturn hpolling ⟨hstuck, Nat.le_of_lt h.polling.lt, hlast⟩⟩

end Rolls

namespace Game

variable {g : Game} {moves : List Move} {s : State} {rolls : Rolls}

/-- The first seat is asked first. -/
theorem polling_of_start {count : Nat} {seed : UInt64}
    (hsubmits : g.definition.order = .simultaneous) (h : g.start count seed = .ok s) :
    s.Polling 0 := by
  obtain ⟨blank, t, hblank, hstirs, rfl⟩ := course_of_start h
  obtain ⟨hinitial, hcount, hpositive, hsmall, hsynced⟩ := blank_eq_ok hblank
  rw [hsubmits] at hinitial
  have hfirst : (blank.syncActive g.definition).Polling 0 :=
    State.polling_syncActive hinitial (hcount.symm ▸ hsmall) (hcount.symm ▸ hpositive)
  rw [hsynced] at hfirst
  exact (hfirst.stirs hstirs).syncActive.stirs (.stamp _)

/-- Wherever the game comes to, it is the turn of some seat. -/
theorem Reached.polling (hsubmits : g.definition.order = .simultaneous) {history : List TraceEntry}
    (h : g.Reached history s) : ∃ k, s.Polling k := by
  induction h with
  | start h => exact ⟨0, polling_of_start hsubmits h⟩
  | move hprior hgame hmove ih =>
    subst hgame
    obtain ⟨k, hk⟩ := ih
    obtain ⟨q, hcomes, -, hres⟩ := Rules.comesTo_of_makeMove hmove
    obtain ⟨k', hk'⟩ := Rules.polling_of_comesTo hsubmits hk hcomes
    exact ⟨k', hres ▸ hk'.stirs (.stamp q.state)⟩

/-- The rolls say who has been asked, wherever the game comes to. -/
theorem Told.rolls_say (hsubmits : g.definition.order = .simultaneous)
    (h : g.Told Rolls.chronicle moves rolls s) : ∃ k, rolls.Says s k := by
  refine h.invariant (P := fun _ rolls s => ∃ k, rolls.Says s k) ?_ ?_ ?_ ?_
  · intro count seed s hstart
    refine ⟨0, polling_of_start hsubmits hstart, Roll.reaches_zero _, nofun, ?_⟩
    rw [(first_of_start hstart).1]
    rfl
  · rintro r moves rolls s m x p p' rfl hx hcarried hout ⟨k, hrolls⟩
    exact hrolls.move hsubmits hx hcarried hout
  · rintro r moves rolls p q rfl - htransition ⟨k, hrolls⟩
    exact hrolls.pass hsubmits htransition
  · rintro moves rolls s ⟨k, hrolls⟩
    exact ⟨k, hrolls.polling.stirs (.stamp s), hrolls.current, hrolls.closed, hrolls.turn⟩

/-- Where all seats move once a turn, every turn that has been closed has its roll.  Some number of
seats, from the first one on, have moved, and unless these were all the next one was stuck.  No
later seat has been asked: it has neither moved nor been stuck.  So all seats have been asked
exactly if no seat came after the one that was stuck. -/
theorem rolls_of_played (hsubmits : g.definition.order = .simultaneous) (h : g.Played moves s) :
    (∃ rolls, g.Told Rolls.chronicle moves rolls s) ∧
      ∀ rolls, g.Told Rolls.chronicle moves rolls s →
        s.turn = UInt32.ofNat (rolls.closed.length + 1) ∧
        ∀ roll ∈ rolls.closed, ∃ k ≤ s.seatCount,
          roll.moved = (Seat.all s.seatCount).take k ∧
          (∀ seat, (Seat.all s.seatCount)[k]? = some seat → seat ∈ roll.stuck) ∧
          (∀ i seat, k < i → (Seat.all s.seatCount)[i]? = some seat →
            seat ∉ roll.moved ∧ seat ∉ roll.stuck) ∧
          (roll.Fair s.seatCount ↔ s.seatCount ≤ k + 1) := by
  refine ⟨h.exists_told _, fun rolls htold => ?_⟩
  obtain ⟨current, hrolls⟩ := htold.rolls_say hsubmits
  refine ⟨hrolls.turn, fun roll hroll => ?_⟩
  obtain ⟨k, hclosed⟩ := hrolls.closed roll hroll
  exact ⟨k, hclosed.le, hclosed.moved, hclosed.last,
    fun i seat hi hseat => hclosed.not_mem hi hseat,
    hclosed.fair_iff hrolls.polling.count_le⟩

end Game

/-! ## A council -/

/-- A game in which all seats vote once a turn, but the second seat has no vote. -/
def Definition.council : Definition :=
  { Definition.minimal "council" with
    order := .simultaneous
    actions := [{ id := "vote", pre := some (.compare .ne (.ref .activeSeat) (.int 1)) }] }

/-- The rules of that game, under the usual limits. -/
def Rules.council : Rules := { game := .ofDefinition .council }

/-- Where three seats start that game. -/
def State.council : State := (Rules.council.game.start 3 0).toOption.getD default

/-- The rolls when the first seat has voted, and where that leads to. -/
def Rolls.council : Rolls × State :=
  (Rules.council.retellAll? Rolls.chronicle [.named "vote"] Rolls.chronicle.first .council).getD
    default

/-- The first seat votes, the second one cannot, and the turn is closed before the third seat is
asked. -/
theorem Game.rolls_of_played_council :
    ∃ rolls s roll, Rules.council.game.Told Rolls.chronicle [.named "vote"] rolls s ∧
      s.seatCount = 3 ∧ s.turn = 2 ∧ rolls.closed = [roll] ∧
      roll = { moved := [⟨0⟩], stuck := [⟨1⟩] } ∧ ¬roll.Fair 3 := by
  have hstart : Rules.council.game.start 3 0 = .ok .council := eq_ok_getD (by decide +kernel)
  have htold : Rules.council.game.Told Rolls.chronicle [.named "vote"] Rolls.council.1
      Rolls.council.2 := Game.told_getD rfl hstart (by decide +kernel)
  have hcount : Rolls.council.2.seatCount = 3 := by decide +kernel
  have hclosed : Rolls.council.1.closed = [{ moved := [⟨0⟩], stuck := [⟨1⟩] }] := by decide +kernel
  obtain ⟨-, hrolls⟩ := Game.rolls_of_played rfl htold.played
  obtain ⟨hturn, hclosings⟩ := hrolls _ htold
  rw [hclosed] at hturn hclosings
  obtain ⟨k, -, hmoved, -, -, hfair⟩ := hclosings _ (List.mem_singleton_self _)
  refine ⟨_, _, _, htold, hcount, hturn, hclosed, rfl, ?_⟩
  rw [hcount] at hmoved hfair
  rw [hfair]
  have hone := congrArg List.length hmoved
  rw [List.length_take, Seat.length_all (by decide)] at hone
  simp only [List.length_singleton] at hone
  omega

end Tabletop
