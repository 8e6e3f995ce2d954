import Mathlib.Data.List.Nodup
import Mathlib.Logic.Relation
import Tabletop.Effect.Flow
import Tabletop.TurnOrder.Course
import Tabletop.TurnOrder.Coverage

/-!
# The books of a card

A card-driven order keeps books of who acted and who passed on the card, of who sits out, and of the
free operations that are granted.  Effects can only issue grants and say who shall be eligible; the
rest is done by the moves of the seats, by passing over a seat that cannot move, and by the end of
the card.

The books stay in order only because the active seat is known: while no grant is pending it is the
next eligible seat, so that it has neither acted nor passed, and there is room for it on the card.
`CardState.Orderly` says what the books look like, `CardState.Awaits` what they know of the active
seat.

Main statements: `CardState.Orderly.afterMove` and `CardState.exists_awaits_of_not_isOver`, by which
the books stay in order until the card is over, and `CardState.Orderly.nextCard`.
-/

namespace Tabletop

open Relation (ReflTransGen)

namespace CardState

/-! ## What effects do -/

/-- One thing that an effect does to the books: a grant is issued, or a seat is said to be eligible
or not. -/
inductive Stir : CardState → CardState → Prop where
  | grant (c : CardState) {offer : GrantOffer} (seat : Seat) (huses : offer.uses ≠ 0) :
      Stir c (c.grant offer seat)
  | override (c : CardState) (seat : Seat) (eligible : Bool) : Stir c (c.setOverride seat eligible)

/-- Several such things, or none. -/
abbrev Stirs : CardState → CardState → Prop := ReflTransGen Stir

/-- The course of a card is where it was. -/
structure SameCourse (c c' : CardState) : Prop where
  seatOrder : c'.seatOrder = c.seatOrder
  ineligible : c'.ineligible = c.ineligible
  acted : c'.acted = c.acted
  passed : c'.passed = c.passed

variable {c c' : CardState} {rules : CardRules} {seat : Seat}

namespace SameCourse

/-- The course of a card is where it is. -/
theorem refl (c : CardState) : c.SameCourse c := ⟨rfl, rfl, rfl, rfl⟩

/-- The course of a card is where it was before what came before. -/
theorem trans {c'' : CardState} (h : c.SameCourse c') (h' : c'.SameCourse c'') :
    c.SameCourse c'' where
  seatOrder := h'.seatOrder.trans h.seatOrder
  ineligible := h'.ineligible.trans h.ineligible
  acted := h'.acted.trans h.acted
  passed := h'.passed.trans h.passed

/-- The next eligible seat depends on the course of the card only. -/
theorem nextEligible? (h : c.SameCourse c') : c'.nextEligible? = c.nextEligible? := by
  unfold CardState.nextEligible? isEligible
  rw [h.seatOrder, h.ineligible, h.acted, h.passed]

end SameCourse

/-- Whatever stirs the books leaves the course of the card. -/
theorem Stir.sameCourse (h : c.Stir c') : c.SameCourse c' := by
  cases h with
  | grant => exact ⟨rfl, rfl, rfl, rfl⟩
  | override => exact ⟨rfl, rfl, rfl, rfl⟩

/-- Whatever stirs the books, several times over, leaves the course of the card. -/
theorem Stirs.sameCourse (h : c.Stirs c') : c.SameCourse c' := by
  induction h with
  | refl => exact .refl c
  | tail _ hstep ih => exact ih.trans hstep.sameCourse

/-- Grants are issued behind those that are pending. -/
theorem Stir.prefix_grants (h : c.Stir c') : c.grants <+: c'.grants := by
  cases h with
  | grant => exact List.prefix_append _ _
  | override => exact List.prefix_refl _

/-- Grants that are issued come behind those that are pending. -/
theorem Stirs.prefix_grants (h : c.Stirs c') : c.grants <+: c'.grants := by
  induction h with
  | refl => exact List.prefix_refl _
  | tail _ hstep ih => exact ih.trans hstep.prefix_grants

/-! ## The next eligible seat -/

/-- The next eligible seat is one of the order that does not sit out and has neither acted nor
passed. -/
theorem of_nextEligible? (h : c.nextEligible? = some seat) :
    seat ∈ c.seatOrder ∧ seat ∉ c.ineligible ∧ seat ∉ c.acted ∧ seat ∉ c.passed := by
  have hmem := List.mem_of_find?_eq_some h
  have htest := List.find?_some h
  simp only [isEligible, Bool.and_eq_true, Bool.not_eq_true', List.contains_eq_mem,
    decide_eq_false_iff_not] at htest
  exact ⟨hmem, htest.1.1, htest.1.2, htest.2⟩

/-- Where a seat may still act, there is a next eligible seat. -/
theorem isSome_nextEligible? (hmem : seat ∈ c.seatOrder) (heligible : seat ∉ c.ineligible)
    (hacted : seat ∉ c.acted) (hpassed : seat ∉ c.passed) : c.nextEligible?.isSome = true := by
  refine List.find?_isSome.2 ⟨seat, hmem, ?_⟩
  simp [isEligible, heligible, hacted, hpassed]

/-- Without grants it is the next eligible seat's turn. -/
theorem seat?_of_grants_nil (h : c.grants = []) : c.seat? = c.nextEligible? := by
  simp [seat?, h]

/-- Free operations are in order exactly while grants are pending. -/
theorem inGrantWindow_iff : c.inGrantWindow = true ↔ c.grants ≠ [] := by
  simp [inGrantWindow]

/-! ## Books in order -/

/-- The books of a card are in order. -/
structure Orderly (c : CardState) (rules : CardRules) : Prop where
  acted_nodup : c.acted.Nodup
  passed_nodup : c.passed.Nodup
  /-- Nobody both acted and passed. -/
  disjoint : ∀ seat ∈ c.acted, seat ∉ c.passed
  acted_eligible : ∀ seat ∈ c.acted, seat ∈ c.seatOrder ∧ seat ∉ c.ineligible
  passed_eligible : ∀ seat ∈ c.passed, seat ∈ c.seatOrder ∧ seat ∉ c.ineligible
  /-- No more seats acted than may; one may always. -/
  few : c.acted.length ≤ max 1 rules.maxActing.toNat
  /-- The seats that sit out are listed by index, each once. -/
  ascending : c.ineligible.Pairwise (fun a b => a.index < b.index)
  /-- Of each seat it has been said at most once whether it shall be eligible. -/
  overrides_nodup : (c.overrides.map (·.seat)).Nodup
  /-- Every grant that is pending can be used. -/
  usable : ∀ grant ∈ c.grants, 1 ≤ grant.remaining

/-- What the books know of the active seat: it is the holder of the first grant or the next eligible
seat, and unless grants are pending there is room for it on the card. -/
structure Awaits (c : CardState) (rules : CardRules) (active : Seat) : Prop where
  seat : c.seat? = some active ∨ c.nextEligible? = some active
  room : c.grants = [] → c.acted.length < max 1 rules.maxActing.toNat

/-- Where no grant is pending, the next eligible seat is active. -/
theorem Awaits.nextEligible? {active : Seat} (h : c.Awaits rules active) (hnone : c.grants = []) :
    c.nextEligible? = some active := by
  rcases h.seat with hseat | hnext
  · rw [← seat?_of_grants_nil hnone]
    exact hseat
  · exact hnext

/-- The seat that is to move is awaited all the more. -/
theorem Awaits.exists_seat? {active : Seat} (h : c.Awaits rules active) :
    ∃ active', c.seat? = some active' ∧ c.Awaits rules active' := by
  by_cases hnone : c.grants = []
  · have hseat : c.seat? = some active := by
      rw [seat?_of_grants_nil hnone]
      exact h.nextEligible? hnone
    exact ⟨active, hseat, h⟩
  · obtain ⟨first, rest, hgrants⟩ := List.exists_cons_of_ne_nil hnone
    have hholder : c.seat? = some first.seat := by simp [seat?, hgrants]
    exact ⟨first.seat, hholder, .inl hholder, h.room⟩

/-- Whatever effects do, the same seat is awaited. -/
theorem Awaits.stirs {active : Seat} (h : c.Awaits rules active) (hstirs : c.Stirs c') :
    c'.Awaits rules active where
  seat := by
    have hcourse := hstirs.sameCourse
    -- Grants are issued behind the pending ones, so a first one stays the first.  Where there is
    -- none, the next eligible seat is active, and it stays the next.
    by_cases hnone : c.grants = []
    · right
      rw [hcourse.nextEligible?]
      exact h.nextEligible? hnone
    · rcases h.seat with hseat | hnext
      · left
        obtain ⟨new, hnew⟩ := hstirs.prefix_grants
        obtain ⟨first, rest, hgrants⟩ := List.exists_cons_of_ne_nil hnone
        simp only [seat?, hgrants, List.head?_cons, Option.map_some, Option.some_or] at hseat
        simp [seat?, ← hnew, hgrants, hseat]
      · right
        rw [hcourse.nextEligible?]
        exact hnext
  room := by
    intro hnone
    rw [hstirs.sameCourse.acted]
    apply h.room
    exact List.prefix_nil.1 (hnone ▸ hstirs.prefix_grants)

namespace Orderly

/-- Only whether they can be used counts of the grants. -/
theorem withGrants (h : c.Orderly rules) {grants : List Grant}
    (husable : ∀ grant ∈ grants, 1 ≤ grant.remaining) (nextGrant : UInt32) :
    { c with grants, nextGrant }.Orderly rules :=
  { h with usable := husable }

/-- The books stay in order when they are stirred. -/
theorem stir (h : c.Orderly rules) (hstir : c.Stir c') : c'.Orderly rules := by
  cases hstir with
  | grant seat huses =>
    apply h.withGrants
    intro grant hgrant
    rcases List.mem_append.1 hgrant with hold | hnew
    · exact h.usable grant hold
    · rw [List.mem_singleton.1 hnew]
      exact UInt32.le_iff_toNat_le.2 (Nat.pos_of_ne_zero (fun h => huses (UInt32.toNat_inj.1 h)))
  | override seat eligible =>
    refine { h with overrides_nodup := ?_ }
    have hothers : ((c.overrides.filter (fun o => o.seat ≠ seat)).map (·.seat)).Nodup :=
      h.overrides_nodup.sublist (List.filter_sublist.map _)
    simp only [setOverride, List.map_append, List.map_cons, List.map_nil]
    refine hothers.append (List.nodup_singleton _) ?_
    simp

/-- The books stay in order when they are stirred several times. -/
theorem stirs (h : c.Orderly rules) (hstirs : c.Stirs c') : c'.Orderly rules := by
  induction hstirs with
  | refl => exact h
  | tail _ hstep ih => exact ih.stir hstep

/-- The books stay in order when a grant is used. -/
theorem consume (h : c.Orderly rules) (id : String) : (c.consume id).Orderly rules := by
  apply h.withGrants
  intro grant hgrant
  have hpositive := of_decide_eq_true (List.mem_filter.1 hgrant).2
  exact UInt32.le_iff_toNat_le.2 (UInt32.lt_iff_toNat_lt.1 hpositive)

/-- The books stay in order when a seat declines its grants. -/
theorem declineGrants (h : c.Orderly rules) (seat : Seat) : (c.declineGrants seat).Orderly rules :=
  h.withGrants (fun grant hgrant => h.usable grant (List.mem_of_mem_filter hgrant)) _

/-- The next eligible seat passes. -/
theorem pass (h : c.Orderly rules) (hnext : c.nextEligible? = some seat) :
    (c.pass seat).Orderly rules := by
  obtain ⟨hmem, heligible, hacted, hpassed⟩ := of_nextEligible? hnext
  refine { h with passed_nodup := ?_, disjoint := ?_, passed_eligible := ?_ }
  · refine h.passed_nodup.append (List.nodup_singleton _) ?_
    simp [hpassed]
  · intro other hother hin
    rcases List.mem_append.1 hin with hin | hin
    · exact h.disjoint other hother hin
    · rw [List.mem_singleton.1 hin] at hother
      exact hacted hother
  · intro other hin
    rcases List.mem_append.1 hin with hin | hin
    · exact h.passed_eligible other hin
    · rw [List.mem_singleton.1 hin]
      exact ⟨hmem, heligible⟩

/-- The next eligible seat acts, if there is room for it. -/
theorem act (h : c.Orderly rules) (hnext : c.nextEligible? = some seat)
    (hroom : c.acted.length < max 1 rules.maxActing.toNat) : (c.act seat).Orderly rules := by
  obtain ⟨hmem, heligible, hacted, hpassed⟩ := of_nextEligible? hnext
  have hact : c.act seat = { c with acted := c.acted ++ [seat] } := by
    simp [CardState.act, hacted]
  rw [hact]
  refine { h with acted_nodup := ?_, disjoint := ?_, acted_eligible := ?_, few := ?_ }
  · refine h.acted_nodup.append (List.nodup_singleton _) ?_
    simp [hacted]
  · intro other hin
    rcases List.mem_append.1 hin with hin | hin
    · exact h.disjoint other hin
    · rw [List.mem_singleton.1 hin]
      exact hpassed
  · intro other hin
    rcases List.mem_append.1 hin with hin | hin
    · exact h.acted_eligible other hin
    · rw [List.mem_singleton.1 hin]
      exact ⟨hmem, heligible⟩
  · simp only [List.length_append, List.length_singleton]
    omega

/-- A seat that cannot move is passed over. -/
theorem skip (h : c.Orderly rules) (hawaits : c.Awaits rules seat) :
    (c.skip seat).Orderly rules := by
  unfold CardState.skip
  split
  · exact h.declineGrants seat
  · rename_i hwindow
    split
    · exact h
    · rw [inGrantWindow_iff, not_not] at hwindow
      exact h.pass (hawaits.nextEligible? hwindow)

/-- A seat moves.  What is known of it was known when its move began, and holds unless the move is a
free operation or gives grants up. -/
theorem afterMove (h : c.Orderly rules) {m : Move}
    (hturn : m.free = false → c.grants = [] ∨ rules.passAction ≠ some m.action →
      c.nextEligible? = some seat ∧ c.acted.length < max 1 rules.maxActing.toNat) :
    (c.afterMove rules seat m).Orderly rules := by
  unfold CardState.afterMove
  split
  · exact h
  · rename_i hfree
    rw [Bool.not_eq_true] at hfree
    split
    · split
      · exact h.declineGrants seat
      · rename_i hwindow
        rw [inGrantWindow_iff, not_not] at hwindow
        exact h.pass (hturn hfree (.inl hwindow)).1
    · rename_i hpass
      obtain ⟨hnext, hroom⟩ := hturn hfree (.inr hpass)
      exact h.act hnext hroom

end Orderly

/-- Passing over a seat leaves the order of the seats. -/
theorem seatOrder_skip (c : CardState) (seat : Seat) : (c.skip seat).seatOrder = c.seatOrder := by
  unfold skip
  split
  · rfl
  · split <;> rfl

/-- A move leaves the order of the seats. -/
theorem seatOrder_afterMove (c : CardState) (rules : CardRules) (seat : Seat) (m : Move) :
    (c.afterMove rules seat m).seatOrder = c.seatOrder := by
  have hact : (c.act seat).seatOrder = c.seatOrder := by
    unfold act
    split <;> rfl
  unfold afterMove
  split
  · rfl
  · split
    · split <;> rfl
    · exact hact

/-! ## The first card -/

/-- The books of the first card are in order, and they await a seat. -/
theorem first_orderly (seats : List Seat) (rules : CardRules) :
    { seatOrder := seats : CardState }.Orderly rules where
  acted_nodup := List.nodup_nil
  passed_nodup := List.nodup_nil
  disjoint := by simp
  acted_eligible := by simp
  passed_eligible := by simp
  few := Nat.zero_le _
  ascending := List.Pairwise.nil
  overrides_nodup := List.nodup_nil
  usable := by simp

/-- At the start of a card the books know who is active, as soon as there is a seat. -/
theorem first_awaits {seats : List Seat} (h : seats ≠ []) (rules : CardRules) :
    ∃ active, { seatOrder := seats : CardState }.seat? = some active ∧
      { seatOrder := seats : CardState }.Awaits rules active := by
  obtain ⟨first, rest, rfl⟩ := List.exists_cons_of_ne_nil h
  have hseat : { seatOrder := first :: rest : CardState }.seat? = some first := by
    simp [seat?, nextEligible?, isEligible]
  refine ⟨first, hseat, .inl hseat, fun _ => ?_⟩
  exact Nat.lt_of_lt_of_le Nat.zero_lt_one (Nat.le_max_left _ _)

/-! ## The end of a card -/

/-- Seats that acted once each are excluded once each. -/
theorem excluded_nodup (h : c.acted.Nodup) : c.excluded.Nodup := by
  unfold excluded
  generalize c.acted = seats at h
  induction c.overrides generalizing seats with
  | nil => exact h
  | cons o overrides ih =>
    rw [List.foldl_cons]
    apply ih
    split
    · exact h.filter _
    · split
      · exact h
      · rename_i habsent
        rw [List.contains_iff_mem] at habsent
        refine h.append (List.nodup_singleton _) ?_
        simp [habsent]

/-- Seats of which each occurs once are listed by index, each once. -/
theorem ascending_mergeSort {seats : List Seat} (h : seats.Nodup) :
    (seats.mergeSort Seat.le).Pairwise (fun a b => a.index < b.index) := by
  have htrans : ∀ a b c : Seat, a.le b = true → b.le c = true → a.le c = true := by
    intro a b c hab hbc
    simp only [Seat.le, decide_eq_true_eq] at hab hbc ⊢
    exact UInt8.le_trans hab hbc
  have htotal : ∀ a b : Seat, (a.le b || b.le a) = true := by
    intro a b
    simp only [Seat.le, Bool.or_eq_true, decide_eq_true_eq]
    exact UInt8.le_total a.index b.index
  have hsorted := List.pairwise_mergeSort htrans htotal seats
  have hnodup : (seats.mergeSort Seat.le).Nodup :=
    (List.mergeSort_perm seats Seat.le).nodup_iff.2 h
  refine (hsorted.and hnodup).imp ?_
  rintro a b ⟨hle, hne⟩
  refine UInt8.lt_of_le_of_ne (of_decide_eq_true hle) (fun hindex => hne ?_)
  cases a
  cases b
  exact congrArg Seat.mk hindex

/-- The next card keeps no seat waiting for ever: somebody may act on it. -/
theorem isSome_nextEligible?_nextCard (h : c.seatOrder ≠ []) :
    c.nextCard.nextEligible?.isSome = true := by
  by_cases hall : c.seatOrder.all c.excluded.contains = true
  · obtain ⟨first, rest, hseats⟩ := List.exists_cons_of_ne_nil h
    have hmem : first ∈ c.nextCard.seatOrder := by simp [CardState.nextCard, hseats]
    apply isSome_nextEligible? hmem
    · simp only [CardState.nextCard, if_pos hall]
      exact List.not_mem_nil
    · exact List.not_mem_nil
    · exact List.not_mem_nil
  · obtain ⟨seat, hmem, hfree⟩ : ∃ seat ∈ c.seatOrder, seat ∉ c.excluded := by
      simpa using hall
    have hmem : seat ∈ c.nextCard.seatOrder := hmem
    apply isSome_nextEligible? hmem
    · simp only [CardState.nextCard, if_neg hall]
      simpa using hfree
    · exact List.not_mem_nil
    · exact List.not_mem_nil

/-- The books of the next card are in order if those of the last one were. -/
theorem Orderly.nextCard (h : c.Orderly rules) : c.nextCard.Orderly rules where
  acted_nodup := List.nodup_nil
  passed_nodup := List.nodup_nil
  disjoint := by simp [CardState.nextCard]
  acted_eligible := by simp [CardState.nextCard]
  passed_eligible := by simp [CardState.nextCard]
  few := Nat.zero_le _
  ascending := by
    simp only [CardState.nextCard]
    split
    · exact List.Pairwise.nil
    · exact ascending_mergeSort (excluded_nodup h.acted_nodup)
  overrides_nodup := List.nodup_nil
  usable := h.usable

/-- A card that is not over awaits the seat that is to move. -/
theorem exists_awaits_of_not_isOver (h : c.isOver rules = false) :
    ∃ active, c.seat? = some active ∧ c.Awaits rules active := by
  by_cases hnone : c.grants = []
  · have hgoes : c.acted.length < rules.maxActing.toNat ∧ c.nextEligible?.isSome = true := by
      simpa [isOver, inGrantWindow, hnone] using h
    obtain ⟨active, hactive⟩ := Option.isSome_iff_exists.1 hgoes.2
    refine ⟨active, ?_, .inr hactive, fun _ => ?_⟩
    · rw [seat?_of_grants_nil hnone]
      exact hactive
    · exact Nat.lt_of_lt_of_le hgoes.1 (Nat.le_max_right _ _)
  · obtain ⟨first, rest, hgrants⟩ := List.exists_cons_of_ne_nil hnone
    have hholder : c.seat? = some first.seat := by simp [seat?, hgrants]
    exact ⟨first.seat, hholder, .inl hholder, fun h => absurd h hnone⟩

/-- A seat that sits out the next card is not the next one on it, unless all seats would sit out. -/
theorem nextEligible?_nextCard_ne (hout : seat ∈ c.excluded)
    (hall : c.seatOrder.all c.excluded.contains = false) :
    c.nextCard.nextEligible? ≠ some seat := by
  intro hnext
  obtain ⟨-, heligible, -, -⟩ := of_nextEligible? hnext
  apply heligible
  simp only [CardState.nextCard, hall, Bool.false_eq_true, if_false]
  exact (List.mergeSort_perm _ _).mem_iff.2 hout

/-- No grant is pending on the card after one that is over. -/
theorem grants_nextCard (hover : c.isOver rules = true) : c.nextCard.grants = [] := by
  have hclosed : c.inGrantWindow = false := by
    simp only [isOver, Bool.and_eq_true, Bool.not_eq_true'] at hover
    exact hover.1
  simpa [inGrantWindow, CardState.nextCard] using hclosed

/-- The card after one that is over awaits its first eligible seat. -/
theorem exists_awaits_nextCard (hover : c.isOver rules = true) (hseats : c.seatOrder ≠ []) :
    ∃ active, c.nextCard.seat? = some active ∧ c.nextCard.Awaits rules active := by
  obtain ⟨active, hactive⟩ := Option.isSome_iff_exists.1 (isSome_nextEligible?_nextCard hseats)
  refine ⟨active, ?_, .inr hactive, fun _ => ?_⟩
  · rw [seat?_of_grants_nil (grants_nextCard hover)]
    exact hactive
  · exact Nat.lt_of_lt_of_le Nat.zero_lt_one (Nat.le_max_left _ _)

end CardState

end Tabletop
