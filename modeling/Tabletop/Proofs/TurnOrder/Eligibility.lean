import Tabletop.Proofs.TurnOrder.CardDriven

/-!
# Who sits out the next card

When a card ends, the seats that acted on it are to sit out the next one.  What has been said about
eligibility amends that, one word after the other, in either direction and for any seat whatever.
So the last word about a seat decides; whether it acted counts only where nothing has been said
about it.

If nobody of the order were left by this rule, nobody sits out: there is always a seat to act.

Main statement: `State.eligibility_of_endCard`.
-/

namespace Tabletop

namespace Override

variable {seat : Seat}

/-- The last word about a seat, if anything has been said about it: whether it shall be eligible. -/
def lastWord? (overrides : List Override) (seat : Seat) : Option Bool :=
  (overrides.filter (fun o => o.seat = seat)).getLast?.map (·.eligible)

/-- The last word about a seat is the latest one said about it. -/
theorem lastWord?_concat (overrides : List Override) (o : Override) (seat : Seat) :
    lastWord? (overrides ++ [o]) seat =
      if o.seat = seat then some o.eligible else lastWord? overrides seat := by
  unfold lastWord?
  by_cases h : o.seat = seat
  · simp [h]
  · simp [h]

/-- The seats that sit out once one more word has been said. -/
def heed (seats : List Seat) (o : Override) : List Seat :=
  if o.eligible then seats.filter (fun s => s ≠ o.seat)
  else if seats.contains o.seat then seats
  else seats ++ [o.seat]

/-- A word decides about its seat and leaves the others. -/
theorem mem_heed {seats : List Seat} {o : Override} :
    seat ∈ heed seats o ↔ if o.seat = seat then o.eligible = false else seat ∈ seats := by
  unfold heed
  by_cases h : o.seat = seat
  · subst h
    cases o.eligible with
    | true => simp
    | false =>
      by_cases hmem : o.seat ∈ seats <;> simp [hmem]
  · have hne : seat ≠ o.seat := Ne.symm h
    cases o.eligible with
    | true => simp [h, hne]
    | false =>
      by_cases hmem : o.seat ∈ seats <;> simp [h, hne, hmem]

/-- After many words it is the last one about a seat that decides about it. -/
theorem mem_foldl_heed (overrides : List Override) (acted : List Seat) :
    seat ∈ overrides.foldl heed acted ↔
      lastWord? overrides seat = some false ∨ lastWord? overrides seat = none ∧ seat ∈ acted := by
  induction overrides using List.reverseRecOn with
  | nil => simp [lastWord?]
  | append_singleton overrides o ih =>
    rw [List.foldl_concat, mem_heed, lastWord?_concat]
    split
    · simp
    · exact ih

end Override

namespace CardState

variable {c : CardState} {seat : Seat}

/-- A seat is to sit out the next card: it shall not be eligible by the last word about it, or it
acted and nothing has been said about it. -/
def SitsOut (c : CardState) (seat : Seat) : Prop :=
  Override.lastWord? c.overrides seat = some false ∨
    Override.lastWord? c.overrides seat = none ∧ seat ∈ c.acted

instance (c : CardState) (seat : Seat) : Decidable (c.SitsOut seat) :=
  inferInstanceAs (Decidable (_ ∨ _))

/-- The seats that are excluded from the next card are those that sit it out. -/
theorem mem_excluded_iff : seat ∈ c.excluded ↔ c.SitsOut seat :=
  Override.mem_foldl_heed c.overrides c.acted

/-- All seats are excluded exactly if each seat of the order sits out. -/
theorem all_excluded_iff :
    c.seatOrder.all c.excluded.contains = true ↔ ∀ other ∈ c.seatOrder, c.SitsOut other := by
  simp [List.all_eq_true, mem_excluded_iff]

/-- Those who are to sit out do so, unless that would be everybody. -/
theorem mem_ineligible_nextCard_iff : seat ∈ c.nextCard.ineligible ↔
    c.SitsOut seat ∧ ¬∀ other ∈ c.seatOrder, c.SitsOut other := by
  simp only [nextCard]
  split
  · rename_i hall
    rw [all_excluded_iff] at hall
    exact iff_of_false List.not_mem_nil (fun h => h.2 hall)
  · rename_i hall
    rw [all_excluded_iff] at hall
    rw [List.mem_mergeSort, mem_excluded_iff]
    exact (and_iff_left hall).symm

/-- On the next card the ineligible seats are listed in ascending order, if no seat acted twice. -/
theorem ascending_nextCard (h : c.acted.Nodup) :
    c.nextCard.ineligible.Pairwise (fun a b => a.index < b.index) := by
  simp only [nextCard]
  split
  · exact List.Pairwise.nil
  · exact ascending_mergeSort (excluded_nodup h)

end CardState

/-- At the end of a card those sit out the next one whom the last word about them says to, and those
who acted and about whom nothing has been said; but nobody does if that were the whole order.  They
are listed by index, each once.  The books are opened anew under the next number, the grants stay
pending, and there is a seat to act. -/
theorem State.eligibility_of_endCard {d : Definition} {s : State} {rules : CardRules}
    {card : CardState} (hrules : d.order = .cardDriven rules) (hcard : s.order = .cardDriven card)
    (hseats : card.seatOrder ≠ []) (hacted : card.acted.Nodup) :
    ∃ next, (s.endCard d).order = .cardDriven next ∧
      (∀ seat, seat ∈ next.ineligible ↔
        card.SitsOut seat ∧ ¬∀ other ∈ card.seatOrder, card.SitsOut other) ∧
      next.ineligible.Pairwise (fun a b => a.index < b.index) ∧
      next.acted = [] ∧ next.passed = [] ∧ next.overrides = [] ∧
      next.cardIndex = card.cardIndex + 1 ∧ next.seatOrder = card.seatOrder ∧
      next.grants = card.grants ∧ next.nextGrant = card.nextGrant ∧
      next.nextEligible?.isSome = true :=
  ⟨card.nextCard, endCard_order hrules hcard, fun _ => CardState.mem_ineligible_nextCard_iff,
    CardState.ascending_nextCard hacted, rfl, rfl, rfl, rfl, rfl, rfl, rfl,
    CardState.isSome_nextEligible?_nextCard hseats⟩

/-! ## A roster -/

/-- A game for three seats that is driven by cards. -/
def Definition.roster : Definition :=
  { Definition.minimal "roster" with
    order := .cardDriven (.ofSeats [⟨0⟩, ⟨1⟩, ⟨2⟩])
    actions := [{ id := "march" }] }

/-- A card on which two seats acted and much has been said: about the first seat to and fro, about
the second one to and fro the other way round, and about a seat that is none of the order. -/
def CardState.roster : CardState where
  seatOrder := [⟨0⟩, ⟨1⟩, ⟨2⟩]
  acted := [⟨1⟩, ⟨0⟩]
  overrides := [⟨⟨0⟩, true⟩, ⟨⟨5⟩, false⟩, ⟨⟨0⟩, false⟩, ⟨⟨1⟩, false⟩, ⟨⟨1⟩, true⟩]

/-- A state with that card. -/
def State.roster : State :=
  { (((Game.ofDefinition .roster).start 3 0).toOption.getD default) with
    order := .cardDriven .roster }

/-- The last words count. -/
theorem State.eligibility_of_endCard_roster :
    ∃ next, (State.roster.endCard .roster).order = .cardDriven next ∧
      (⟨0⟩ ∈ next.ineligible ∧ ⟨5⟩ ∈ next.ineligible) ∧
      (⟨1⟩ ∉ next.ineligible ∧ ⟨2⟩ ∉ next.ineligible) ∧
      next.cardIndex = 1 ∧ next.nextEligible?.isSome = true := by
  obtain ⟨next, hnext, hmem, -, -, -, -, hindex, -, -, -, hsome⟩ :=
    eligibility_of_endCard (d := .roster) (s := .roster) rfl rfl (by decide) (by decide)
  refine ⟨next, hnext, ⟨(hmem _).2 ?_, (hmem _).2 ?_⟩, ⟨fun h => ?_, fun h => ?_⟩, hindex, hsome⟩
  · decide
  · decide
  · exact absurd ((hmem _).1 h) (by decide)
  · exact absurd ((hmem _).1 h) (by decide)

end Tabletop
