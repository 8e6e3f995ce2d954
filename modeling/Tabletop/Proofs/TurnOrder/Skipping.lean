import Mathlib.Data.Finset.Card
import Tabletop.Proofs.TurnOrder.Passing

/-!
# Passing over one seat after the other

Where no seat can move, the active seats are passed over one after the other until the card ends.
The first time may do no more than bring the active seat in line with the books: what was known of
it before is not asked.  From then on every time takes one seat away, the holder of the first grant
from those who hold any, or, if no grant is pending, the next eligible seat from those who may still
act.  So the card ends once as many seats have been passed over as there were of both.

Main statement: `State.cardEnded_of_skips`.
-/

namespace Tabletop

namespace CardState

variable {c : CardState} {rules : CardRules} {seat : Seat}

/-! ## What is left -/

/-- The seats that hold pending grants. -/
def holders (c : CardState) : Finset Seat := (c.grants.map (·.seat)).toFinset

/-- The seats that may still act on the card. -/
def waiting (c : CardState) : Finset Seat :=
  c.seatOrder.toFinset.filter (fun s => s ∉ c.ineligible ∧ s ∉ c.acted ∧ s ∉ c.passed)

/-- The number of seats to be passed over until the card ends, if each is passed over once for its
grants and once for its turn. -/
def remaining (c : CardState) : Nat := c.holders.card + c.waiting.card

/-- The holders are the seats of the pending grants. -/
theorem mem_holders : seat ∈ c.holders ↔ ∃ g ∈ c.grants, g.seat = seat := by
  simp [holders]

/-- A seat is waiting if it is one of the order, is not ineligible and has neither acted nor
passed. -/
theorem mem_waiting :
    seat ∈ c.waiting ↔
      seat ∈ c.seatOrder ∧ seat ∉ c.ineligible ∧ seat ∉ c.acted ∧ seat ∉ c.passed := by
  simp [waiting]

/-- Only seats of the order are waiting. -/
theorem waiting_subset (c : CardState) : c.waiting ⊆ c.seatOrder.toFinset :=
  Finset.filter_subset _ _

/-- A seat that declines its grants is no longer a holder; the others are. -/
theorem holders_declineGrants (c : CardState) (seat : Seat) :
    (c.declineGrants seat).holders = c.holders.erase seat := by
  ext other
  simp only [mem_holders, declineGrants, List.mem_filter, decide_eq_true_eq, Finset.mem_erase]
  constructor
  · rintro ⟨g, ⟨hg, hne⟩, rfl⟩
    exact ⟨hne, g, hg, rfl⟩
  · rintro ⟨hne, g, hg, rfl⟩
    exact ⟨g, ⟨hg, hne⟩, rfl⟩

/-- A seat that passes is no longer waiting; the others are. -/
theorem waiting_pass (c : CardState) (seat : Seat) :
    (c.pass seat).waiting = c.waiting.erase seat := by
  ext other
  simp only [mem_waiting, CardState.pass, List.mem_append, List.mem_singleton, Finset.mem_erase]
  tauto

/-! ## Passing over a seat -/

/-- While grants are pending, a seat that is passed over declines its own. -/
theorem skip_of_grants (h : c.grants ≠ []) (seat : Seat) : c.skip seat = c.declineGrants seat :=
  if_pos (inGrantWindow_iff.2 h)

/-- Without grants a seat that is passed over passes, unless it has. -/
theorem skip_of_grants_nil (h : c.grants = []) (hpassed : seat ∉ c.passed) :
    c.skip seat = c.pass seat := by
  have hclosed : ¬c.inGrantWindow = true := fun hwindow => inGrantWindow_iff.1 hwindow h
  have hnew : ¬c.passed.contains seat = true := fun hin => hpassed (List.contains_iff_mem.1 hin)
  unfold skip
  rw [if_neg hclosed, if_neg hnew]

/-- Whatever seat is passed over, nothing more is left than before. -/
theorem remaining_skip_le (c : CardState) (seat : Seat) :
    (c.skip seat).remaining ≤ c.remaining := by
  unfold skip
  split
  · have hholders := Finset.card_erase_le (s := c.holders) (a := seat)
    rw [← holders_declineGrants] at hholders
    exact Nat.add_le_add_right hholders _
  · split
    · exact Nat.le_refl _
    · have hwaiting := Finset.card_erase_le (s := c.waiting) (a := seat)
      rw [← waiting_pass] at hwaiting
      exact Nat.add_le_add_left hwaiting _

/-- The books have got on: some of the pending grants are gone, or a seat that had neither acted nor
passed is now the last to have passed. -/
inductive Headway (c c' : CardState) : Prop where
  | declined (hgrants : c'.grants.Sublist c.grants) (hfewer : c'.grants.length < c.grants.length)
  | passed {seat : Seat} (hacted : seat ∉ c.acted) (hpassed : seat ∉ c.passed)
      (hlast : c'.passed = c.passed ++ [seat])

/-- The seat that is to move is the holder of the first grant, or the next eligible seat if no grant
is pending. -/
theorem seat?_cases (h : c.seat? = some seat) :
    (c.grants ≠ [] ∧ seat ∈ c.holders) ∨ (c.grants = [] ∧ seat ∈ c.waiting) := by
  by_cases hnone : c.grants = []
  · rw [seat?_of_grants_nil hnone] at h
    exact .inr ⟨hnone, mem_waiting.2 (of_nextEligible? h)⟩
  · obtain ⟨first, rest, hgrants⟩ := List.exists_cons_of_ne_nil hnone
    have hseat : first.seat = seat := by simpa [seat?, hgrants] using h
    refine .inl ⟨hnone, mem_holders.2 ⟨first, ?_, hseat⟩⟩
    rw [hgrants]
    exact List.mem_cons_self

/-- To pass over the seat that is to move makes headway. -/
theorem headway_skip (h : c.seat? = some seat) : c.Headway (c.skip seat) := by
  rcases seat?_cases h with ⟨hgrants, hholds⟩ | ⟨hnone, hwaits⟩
  · rw [skip_of_grants hgrants]
    obtain ⟨g, hg, hseat⟩ := mem_holders.1 hholds
    apply Headway.declined List.filter_sublist
    refine List.length_filter_lt_length_iff_exists.2 ⟨g, hg, ?_⟩
    simp [hseat]
  · obtain ⟨-, -, hacted, hpassed⟩ := mem_waiting.1 hwaits
    rw [skip_of_grants_nil hnone hpassed]
    exact .passed hacted hpassed rfl

/-- To pass over the seat that is to move leaves less than before. -/
theorem remaining_skip_lt (h : c.seat? = some seat) : (c.skip seat).remaining < c.remaining := by
  rcases seat?_cases h with ⟨hgrants, hholds⟩ | ⟨hnone, hwaits⟩
  · have hfewer := Finset.card_erase_lt_of_mem hholds
    rw [← holders_declineGrants] at hfewer
    rw [skip_of_grants hgrants]
    exact Nat.add_lt_add_right hfewer _
  · have hfewer := Finset.card_erase_lt_of_mem hwaits
    rw [← waiting_pass] at hfewer
    rw [skip_of_grants_nil hnone (mem_waiting.1 hwaits).2.2.2]
    exact Nat.add_lt_add_left hfewer _

end CardState

namespace State

variable {s : State} {d : Definition} {rules : CardRules} {card : CardState}

/-- What passing over the active seat comes to: the card has ended and no grant was pending any
more, or it goes on, and the active seat is the one that is to move. -/
theorem skipStuckSeat_cases (hrules : d.order = .cardDriven rules)
    (hcard : s.order = .cardDriven card) :
    ((s.skipStuckSeat d).1.cardEnded = true ∧ (card.skip s.active).grants = [] ∧
        (s.skipStuckSeat d).2.order = .cardDriven (card.skip s.active).nextCard) ∨
      ((s.skipStuckSeat d).1.cardEnded = false ∧
        (s.skipStuckSeat d).2.order = .cardDriven (card.skip s.active) ∧
        (card.skip s.active).seat? = some (s.skipStuckSeat d).2.active) := by
  rw [skipStuckSeat_eq hrules hcard]
  cases hover : (card.skip s.active).isOver rules with
  | true =>
    left
    rw [settleCard_of_isOver rfl hover]
    refine ⟨rfl, CardState.grants_nextCard hover, ?_⟩
    rw [syncActive_order]
    exact endCard_order hrules rfl
  | false =>
    right
    obtain ⟨active, hactive, -⟩ := CardState.exists_awaits_of_not_isOver hover
    rw [settleCard_of_not_isOver rfl hover, syncActive_of_seat? rfl hactive]
    exact ⟨rfl, rfl, hactive⟩

/-- The state after the active seats have been passed over a number of times, one after the
other. -/
def skips (s : State) (d : Definition) : Nat → State
  | 0 => s
  | n + 1 => (s.skipStuckSeat d).2.skips d n

/-- The last of several seats is passed over after the others. -/
theorem skips_succ (s : State) (d : Definition) (n : Nat) :
    s.skips d (n + 1) = ((s.skips d n).skipStuckSeat d).2 := by
  induction n generalizing s with
  | zero => rfl
  | succ n ih => exact ih (s.skipStuckSeat d).2

/-- However often the active seat is passed over, there is a card. -/
theorem exists_card_skips (hrules : d.order = .cardDriven rules)
    (hcard : s.order = .cardDriven card) (n : Nat) :
    ∃ c, (s.skips d n).order = .cardDriven c := by
  induction n with
  | zero => exact ⟨card, hcard⟩
  | succ n ih =>
    obtain ⟨c, hc⟩ := ih
    rw [skips_succ]
    rcases skipStuckSeat_cases hrules hc with ⟨-, -, horder⟩ | ⟨-, horder, -⟩
    · exact ⟨_, horder⟩
    · exact ⟨_, horder⟩

/-- After the given number of times the card has not ended, and the next time ends it. -/
structure EndsCardAfter (s : State) (d : Definition) (n : Nat) : Prop where
  before : ∀ k < n, ((s.skips d k).skipStuckSeat d).1.cardEnded = false
  ends : ((s.skips d n).skipStuckSeat d).1.cardEnded = true

/-- If passing over the active seat ends the card, it ends at once. -/
theorem EndsCardAfter.zero (h : (s.skipStuckSeat d).1.cardEnded = true) : s.EndsCardAfter d 0 :=
  ⟨fun _ hk => absurd hk (Nat.not_lt_zero _), h⟩

/-- If passing over the active seat does not end the card, it ends one time later than from there
on. -/
theorem EndsCardAfter.succ {n : Nat} (hfirst : (s.skipStuckSeat d).1.cardEnded = false)
    (h : (s.skipStuckSeat d).2.EndsCardAfter d n) : s.EndsCardAfter d (n + 1) where
  before
    | 0, _ => hfirst
    | k + 1, hk => h.before k (Nat.lt_of_succ_lt_succ hk)
  ends := h.ends

/-- To pass over the active seat makes headway. -/
def GetsOn (s : State) : Prop :=
  ∀ c, s.order = .cardDriven c → c.Headway (c.skip s.active)

/-- Passing over the active seat makes headway where it is the seat that is to move. -/
theorem getsOn_of_seat? (hcard : s.order = .cardDriven card) (h : card.seat? = some s.active) :
    s.GetsOn := by
  intro c hc
  cases hcard.symm.trans hc
  exact CardState.headway_skip h

/-- Once the active seat is the one that is to move, every time makes headway, and the card ends
before there is nothing left. -/
theorem exists_endsCardAfter (hrules : d.order = .cardDriven rules) :
    ∀ {left : Nat} {s : State} {card : CardState}, s.order = .cardDriven card →
      card.seat? = some s.active → card.remaining ≤ left →
      ∃ n < left, s.EndsCardAfter d n ∧ ∀ k ≤ n, (s.skips d k).GetsOn := by
  intro left
  induction left with
  | zero =>
    intro s card _ hseat hleft
    exact absurd (CardState.remaining_skip_lt hseat) (by omega)
  | succ left ih =>
    intro s card hcard hseat hleft
    have hless := CardState.remaining_skip_lt hseat
    have hfirst := getsOn_of_seat? hcard hseat
    rcases skipStuckSeat_cases hrules hcard with ⟨hends, -, -⟩ | ⟨hgoes, horder, hnext⟩
    · refine ⟨0, Nat.succ_pos left, .zero hends, fun k hk => ?_⟩
      rw [Nat.le_zero.1 hk]
      exact hfirst
    · obtain ⟨n, hn, hcardEnds, hgetsOn⟩ := ih horder hnext (by omega)
      refine ⟨n + 1, Nat.succ_lt_succ hn, hcardEnds.succ hgoes, fun k hk => ?_⟩
      cases k with
      | zero => exact hfirst
      | succ k => exact hgetsOn k (Nat.le_of_succ_le_succ hk)

/-- If the active seats are passed over one after the other, the card ends at the latest when all
who hold grants and all seats of the order have been, and one time more.  It never ends with a grant
pending, and until it ends every time but the first makes headway. -/
theorem cardEnded_of_skips (hrules : d.order = .cardDriven rules)
    (hcard : s.order = .cardDriven card) :
    ∃ n ≤ card.holders.card + card.seatOrder.toFinset.card,
      (∀ k < n, ((s.skips d k).skipStuckSeat d).1.cardEnded = false) ∧
      ((s.skips d n).skipStuckSeat d).1.cardEnded = true ∧
      ∀ k, ∃ c, (s.skips d k).order = .cardDriven c ∧
        (((s.skips d k).skipStuckSeat d).1.cardEnded = true →
          (c.skip (s.skips d k).active).grants = []) ∧
        (k < n → (s.skips d (k + 1)).order = .cardDriven (c.skip (s.skips d k).active)) ∧
        (0 < k → k ≤ n → c.Headway (c.skip (s.skips d k).active)) := by
  have hbound : (card.skip s.active).remaining ≤
      card.holders.card + card.seatOrder.toFinset.card :=
    Nat.le_trans (card.remaining_skip_le s.active)
      (Nat.add_le_add_left (Finset.card_le_card card.waiting_subset) _)
  -- Only what comes after the first time is sure to make headway.
  obtain ⟨n, hn, hends, hgetsOn⟩ : ∃ n ≤ card.holders.card + card.seatOrder.toFinset.card,
      s.EndsCardAfter d n ∧ ∀ k, 0 < k → k ≤ n → (s.skips d k).GetsOn := by
    rcases skipStuckSeat_cases hrules hcard with ⟨hends, -, -⟩ | ⟨hgoes, horder, hnext⟩
    · exact ⟨0, Nat.zero_le _, .zero hends, fun k hpos hk => by omega⟩
    · obtain ⟨n, hn, hends, hgetsOn⟩ := exists_endsCardAfter hrules horder hnext hbound
      refine ⟨n + 1, hn, hends.succ hgoes, fun k hpos hk => ?_⟩
      obtain ⟨k, rfl⟩ := Nat.exists_eq_succ_of_ne_zero (Nat.ne_of_gt hpos)
      exact hgetsOn k (Nat.le_of_succ_le_succ hk)
  refine ⟨n, hn, hends.before, hends.ends, fun k => ?_⟩
  obtain ⟨c, hc⟩ := exists_card_skips hrules hcard k
  refine ⟨c, hc, fun hended => ?_, fun hk => ?_, fun hpos hk => hgetsOn k hpos hk c hc⟩
  · rcases skipStuckSeat_cases hrules hc with ⟨-, hnone, -⟩ | ⟨hgoes, -, -⟩
    · exact hnone
    · rw [hended] at hgoes
      cases hgoes
  · rcases skipStuckSeat_cases hrules hc with ⟨hended, -, -⟩ | ⟨-, horder, -⟩
    · rw [hends.before k hk] at hended
      cases hended
    · rw [skips_succ]
      exact horder

end State

/-! ## An envoy -/

/-- The books of a parley to which the second seat has sent an envoy: it holds a grant, and nobody
has acted. -/
def CardState.envoy : CardState where
  seatOrder := [⟨0⟩, ⟨1⟩]
  grants := [{ id := "grant-0", seat := ⟨1⟩, remaining := 1 }]

/-- The first seat is still active when the envoy comes. -/
def State.envoy : State := { State.parley with order := .cardDriven .envoy, active := ⟨0⟩ }

/-- It takes as long as it can: the first time does nothing but hand over to the envoy, who is
passed over next, and then both seats are. -/
theorem State.cardEnded_of_skips_envoy :
    State.envoy.order = .cardDriven .envoy ∧
      (∀ k < 3, ((State.envoy.skips .parley k).skipStuckSeat .parley).1.cardEnded = false) ∧
      ((State.envoy.skips .parley 3).skipStuckSeat .parley).1.cardEnded = true ∧
      ∃ c, (State.envoy.skips .parley 1).order = .cardDriven c ∧
        c.Headway (c.skip (State.envoy.skips .parley 1).active) := by
  have hgoes : ∀ k < 3, ((State.envoy.skips .parley k).skipStuckSeat .parley).1.cardEnded =
      false := by
    decide +kernel
  have horder : State.envoy.order = .cardDriven .envoy := rfl
  obtain ⟨n, hn, -, hends, hcards⟩ := State.cardEnded_of_skips (d := .parley) rfl horder
  have hmost : CardState.envoy.holders.card + CardState.envoy.seatOrder.toFinset.card = 3 := by
    decide +kernel
  obtain rfl : n = 3 := by
    refine Nat.le_antisymm (hmost ▸ hn) (Nat.le_of_not_lt (fun hearly => ?_))
    rw [hgoes n hearly] at hends
    cases hends
  obtain ⟨c, hc, -, -, hheadway⟩ := hcards 1
  exact ⟨rfl, hgoes, hends, c, hc, hheadway (by decide) (by decide)⟩

end Tabletop
