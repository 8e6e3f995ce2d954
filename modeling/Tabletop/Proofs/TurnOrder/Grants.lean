import Tabletop.Proofs.TurnOrder.CardDriven

/-!
# The grants of a game

Every grant of a free operation is issued under a number, the first number being zero.  The numbers
count up in 32 bits, so they differ only as long as they do not run out; how many have been issued
since the start is counted here beside the run, in numbers without bounds.  Effects issue grants and
take none back; whatever else happens on the way issues none and can only use them up or give them
up.

Main statement: `Game.books_of_reached`: the books of a card-driven game are well formed.
-/

namespace Tabletop

open Relation (ReflTransGen)

/-! ## Numbered grants -/

/-- All that a grant says but for the uses that are left of it. -/
def Grant.terms (grant : Grant) : Grant := { grant with remaining := 0 }

namespace CardState

variable {c c' : CardState} {n : Nat}

/-- The id of a grant by its number. -/
def grantId (k : Nat) : String := "grant-" ++ toString k

/-- Different numbers make different ids. -/
theorem grantId_injective : Function.Injective grantId := by
  intro k l h
  have hdigits : Nat.toDigits 10 k = Nat.toDigits 10 l := by
    have hchars := congrArg String.toList h
    simpa [grantId, Nat.toList_repr] using hchars
  have hnumbers := congrArg (fun ds => Nat.ofDigitChars 10 ds 0) hdigits
  simpa only [Nat.ofDigitChars_ten_toDigits] using hnumbers

/-- So many grants have been issued, under one number after the other; some of them are pending, in
their order. -/
structure Numbered (c : CardState) (n : Nat) : Prop where
  next : c.nextGrant.toNat = n
  ids : (c.grants.map (·.id)).Sublist ((List.range n).map grantId)

/-- No grant is issued, and of those that were pending some may be gone. -/
structure Withdraws (c c' : CardState) : Prop where
  next : c'.nextGrant = c.nextGrant
  ids : (c'.grants.map (·.id)).Sublist (c.grants.map (·.id))

/-- No grant is issued, and of those that were pending some may be gone; nothing happens to the
others. -/
structure Drops (c c' : CardState) : Prop where
  next : c'.nextGrant = c.nextGrant
  grants : c'.grants.Sublist c.grants

namespace Drops

/-- Books with the same grants and the same next number have dropped none. -/
theorem of_eq (hnext : c'.nextGrant = c.nextGrant) (hgrants : c'.grants = c.grants) : c.Drops c' :=
  ⟨hnext, hgrants ▸ List.Sublist.refl _⟩

/-- Grants dropped one time after another are dropped. -/
theorem trans {c'' : CardState} (h : c.Drops c') (h' : c'.Drops c'') : c.Drops c'' :=
  ⟨h'.next.trans h.next, h'.grants.trans h.grants⟩

/-- A grant that is dropped is withdrawn. -/
theorem withdraws (h : c.Drops c') : c.Withdraws c' := ⟨h.next, h.grants.map _⟩

/-- A seat that declines its grants drops them. -/
theorem declineGrants (c : CardState) (seat : Seat) : c.Drops (c.declineGrants seat) :=
  ⟨rfl, List.filter_sublist⟩

/-- A seat that is passed over drops grants at most. -/
theorem skip (c : CardState) (seat : Seat) : c.Drops (c.skip seat) := by
  unfold CardState.skip
  split
  · exact .declineGrants c seat
  · split
    · exact .of_eq rfl rfl
    · exact .of_eq rfl rfl

/-- A move drops grants at most. -/
theorem afterMove (c : CardState) (rules : CardRules) (seat : Seat) (m : Move) :
    c.Drops (c.afterMove rules seat m) := by
  have hact : c.Drops (c.act seat) := by
    unfold CardState.act
    split
    · exact .of_eq rfl rfl
    · exact .of_eq rfl rfl
  unfold CardState.afterMove
  split
  · exact .of_eq rfl rfl
  · split
    · split
      · exact .declineGrants c seat
      · exact .of_eq rfl rfl
    · exact hact

end Drops

/-- A use leaves the terms of the grants, in their order. -/
theorem terms_consume (c : CardState) (id : String) :
    ((c.consume id).grants.map Grant.terms).Sublist (c.grants.map Grant.terms) := by
  have hspend (grants : List Grant) :
      (CardState.consume.spend id grants).map Grant.terms = grants.map Grant.terms := by
    induction grants with
    | nil => rfl
    | cons g gs ih =>
      unfold CardState.consume.spend
      split
      · rfl
      · rw [List.map_cons, ih, List.map_cons]
  rw [← hspend c.grants]
  exact List.filter_sublist.map _

namespace Withdraws

/-- Where grants are withdrawn, no more are pending than before. -/
theorem length_le (h : c.Withdraws c') : c'.grants.length ≤ c.grants.length := by
  simpa using h.ids.length_le

/-- Using a grant withdraws it at most. -/
theorem consume (c : CardState) (id : String) : c.Withdraws (c.consume id) := by
  have hids (grants : List Grant) : (grants.map Grant.terms).map (·.id) = grants.map (·.id) := by
    rw [List.map_map]
    rfl
  refine ⟨rfl, ?_⟩
  rw [← hids, ← hids c.grants]
  exact (terms_consume c id).map _

end Withdraws

namespace Numbered

/-- On the first card no grant has been issued. -/
theorem first (seats : List Seat) : { seatOrder := seats : CardState }.Numbered 0 :=
  ⟨rfl, .slnil⟩

/-- Pending grants have different ids. -/
theorem nodup (h : c.Numbered n) : (c.grants.map (·.id)).Nodup :=
  (List.nodup_range.map grantId_injective).sublist h.ids

/-- The id of a pending grant is made of a number that has been given out. -/
theorem exists_number (h : c.Numbered n) {grant : Grant} (hgrant : grant ∈ c.grants) :
    ∃ k < c.nextGrant, grant.id = "grant-" ++ toString k.toNat := by
  obtain ⟨k, hk, hid⟩ := List.mem_map.1 (h.ids.subset (List.mem_map_of_mem hgrant))
  have hbelow : k < c.nextGrant.toNat := h.next ▸ List.mem_range.1 hk
  have hnumber : (UInt32.ofNat k).toNat = k :=
    UInt32.toNat_ofNat_of_lt' (Nat.lt_trans hbelow c.nextGrant.toNat_lt)
  refine ⟨UInt32.ofNat k, ?_, ?_⟩
  · rw [UInt32.lt_iff_toNat_lt, hnumber]
    exact hbelow
  · rw [hnumber, ← hid]
    rfl

/-- Grants that are used up or given up leave the numbers of the others. -/
theorem withdraws (h : c.Numbered n) (hwithdraws : c.Withdraws c') : c'.Numbered n :=
  ⟨hwithdraws.next ▸ h.next, hwithdraws.ids.trans h.ids⟩

/-- A grant is issued under the next number, if there is one. -/
theorem grant (h : c.Numbered n) (offer : GrantOffer) (seat : Seat) (hroom : n + 1 < UInt32.size) :
    (c.grant offer seat).Numbered (n + 1) where
  next := by
    have hone : (1 : UInt32).toNat = 1 := rfl
    simp only [CardState.grant, takeGrantId, UInt32.toNat_add, h.next, hone]
    exact Nat.mod_eq_of_lt hroom
  ids := by
    simp only [CardState.grant, takeGrantId, List.map_append, List.range_succ]
    refine h.ids.append ?_
    rw [List.map_singleton, List.map_singleton, h.next]
    exact List.Sublist.refl _

/-- As many grants are issued as come to be pending. -/
theorem stirs (h : c.Numbered n) (hstirs : c.Stirs c')
    (hroom : n + (c'.grants.length - c.grants.length) < UInt32.size) :
    c'.Numbered (n + (c'.grants.length - c.grants.length)) := by
  induction hstirs with
  | refl => simpa using h
  | @tail c₁ c₂ hfirst hlast ih =>
    have hle := (Stirs.prefix_grants hfirst).length_le
    cases hlast with
    | override =>
      have hnumbered := ih hroom
      exact ⟨hnumbered.next, hnumbered.ids⟩
    | @grant offer seat huses =>
      have hlength : (c₁.grant offer seat).grants.length = c₁.grants.length + 1 := by
        simp [CardState.grant, takeGrantId]
      have hcount : n + ((c₁.grant offer seat).grants.length - c.grants.length) =
          n + (c₁.grants.length - c.grants.length) + 1 := by omega
      rw [hcount] at hroom ⊢
      exact (ih (Nat.lt_of_succ_lt hroom)).grant offer seat hroom

end Numbered

end CardState

/-! ## Counting along a run -/

/-- The number of grants that are pending. -/
def State.pending (s : State) : Nat := (s.order.card?.map (·.grants.length)).getD 0

/-- The number of grants that come to be pending from one state to another. -/
def State.gained (s t : State) : Nat := t.pending - s.pending

/-- What happens between two decisions, step by step, with the number of grants that are issued.  A
step that issues grants takes none away, so they are those that come to be pending. -/
inductive Rules.Issues (r : Rules) : Nat → Progress → Progress → Prop where
  | none (p : Progress) : Issues r 0 p p
  | step {n : Nat} {p p' q : Progress} (hrest : Issues r n p p') (hstep : r.Step p' q) :
      Issues r (n + p'.state.gained q.state) p q

/-- The states that are reached by moves from a start, each with the number of grants that have been
issued. -/
inductive Game.Issued (g : Game) : Nat → State → Prop where
  | start {count : Nat} {seed : UInt64} {s : State} (h : g.start count seed = .ok s) :
      Issued g s.pending s
  | move {n k : Nat} {s : State} {r : Rules} {m : Move} {res : MoveResult} {p : Progress}
      (hprior : Issued g n s) (hgame : r.game = g) (h : r.makeMove s m = .ok res)
      (hissues : r.Issues k { state := s } p) (hstate : res.state = p.state.stamp) :
      Issued g (n + k) res.state

namespace State

variable {s t : State} {d : Definition} {rules : CardRules} {card : CardState}

/-- No grant is issued on a card, and of those that were pending some may be gone. -/
def Withdraws (s t : State) : Prop :=
  ∀ card, s.order = .cardDriven card →
    ∃ card', t.order = .cardDriven card' ∧ card.Withdraws card'

/-- No grant is issued on a card, and of those that were pending some may be gone; nothing happens
to the others. -/
def Drops (s t : State) : Prop :=
  ∀ card, s.order = .cardDriven card → ∃ card', t.order = .cardDriven card' ∧ card.Drops card'

/-- Where grants are dropped in a state, they are withdrawn. -/
theorem Drops.withdraws (h : s.Drops t) : s.Withdraws t := by
  intro card hcard
  obtain ⟨card', horder, hdrops⟩ := h card hcard
  exact ⟨card', horder, hdrops.withdraws⟩

/-- With the order left alone, no grant is dropped. -/
theorem drops_of_order (h : t.order = s.order) : s.Drops t :=
  fun card hcard => ⟨card, h.trans hcard, .of_eq rfl rfl⟩

/-- Settling a card drops grants at most, and a card is being played afterwards. -/
theorem drops_settleCard (hrules : d.order = .cardDriven rules)
    (hcard : s.order = .cardDriven card) :
    ∃ card', (s.settleCard d rules).2.order = .cardDriven card' ∧ card.Drops card' := by
  cases hover : card.isOver rules with
  | true =>
    refine ⟨card.nextCard, ?_, .of_eq rfl rfl⟩
    rw [settleCard_of_isOver hcard hover]
    exact (syncActive_order _ _).trans (endCard_order hrules hcard)
  | false =>
    refine ⟨card, ?_, .of_eq rfl rfl⟩
    rw [settleCard_of_not_isOver hcard hover]
    exact (syncActive_order _ _).trans hcard

/-- A move drops grants at most when it is written down. -/
theorem drops_afterMove (hrules : d.order = .cardDriven rules) (s : State) (m : Move) :
    s.Drops (s.afterMove d m).2 := by
  intro card hcard
  rw [afterMove_eq hrules hcard]
  obtain ⟨card', horder, hdrops⟩ :=
    drops_settleCard (s := { s with order := .cardDriven _ }) hrules rfl
  exact ⟨card', horder, (CardState.Drops.afterMove card rules s.active m).trans hdrops⟩

/-- Passing over a stuck seat drops grants at most. -/
theorem drops_skipStuckSeat (hrules : d.order = .cardDriven rules) (s : State) :
    s.Drops (s.skipStuckSeat d).2 := by
  intro card hcard
  rw [skipStuckSeat_eq hrules hcard]
  obtain ⟨card', horder, hdrops⟩ :=
    drops_settleCard (s := { s with order := .cardDriven _ }) hrules rfl
  exact ⟨card', horder, (CardState.Drops.skip card s.active).trans hdrops⟩

/-- Rotating the order drops grants at most. -/
theorem drops_rotate (s : State) (d : Definition) : s.Drops (s.rotate d) := by
  intro card hcard
  refine ⟨card, ?_, .of_eq rfl rfl⟩
  unfold rotate
  rw [hcard]
  exact (syncActive_order _ _).trans hcard

/-- Using a grant withdraws it at most, whatever the order. -/
theorem withdraws_consumeGrant (s : State) (id : String) : s.Withdraws (s.consumeGrant id) := by
  intro card hcard
  refine ⟨card.consume id, ?_, .consume card id⟩
  simp [consumeGrant, hcard, Tracker.modifyCard]

/-- As many grants are pending as the card has. -/
theorem pending_of_order (hcard : s.order = .cardDriven card) : s.pending = card.grants.length := by
  simp [pending, hcard, Tracker.card?]

end State

namespace Rules

variable {r : Rules} {rules : CardRules} {p q : Progress}

/-- A step issues grants or withdraws them, but not both. -/
theorem Step.stirs_or_withdraws (hrules : r.definition.order = .cardDriven rules)
    (h : r.Step p q) : p.state.Stirs q.state ∨ p.state.Withdraws q.state := by
  cases h with
  | effects hruns => exact .inl hruns.stirs
  | consume grant => exact .inr (State.withdraws_consumeGrant _ grant)
  | follow m => exact .inr (State.drops_afterMove hrules _ m).withdraws
  | skip => exact .inr (State.drops_skipStuckSeat hrules _).withdraws
  | enterPhase =>
    right
    apply State.Drops.withdraws
    exact State.drops_of_order (State.syncActive_order _ _)
  | startTurn hstart =>
    right
    obtain ⟨phase, -, hstart⟩ := bind_eq_ok hstart
    cases hstart
    exact (State.drops_rotate _ r.definition).withdraws
  | fire f => exact .inl (.refl _)
  | activate l => exact .inl (.of_eq rfl rfl rfl)
  | expire d => exact .inl (.of_eq rfl rfl rfl)
  | use action => exact .inl (.of_eq rfl rfl rfl)
  | reset scope => exact .inl (.of_eq rfl rfl rfl)
  | resume phase => exact .inl (.of_eq rfl rfl rfl)

/-- A step numbers the grants that it issues. -/
theorem Step.numbered (hrules : r.definition.order = .cardDriven rules) (h : r.Step p q)
    {card : CardState} {n : Nat} (hcard : p.state.order = .cardDriven card) (hn : card.Numbered n)
    (hroom : n + p.state.gained q.state < UInt32.size) :
    ∃ card', q.state.order = .cardDriven card' ∧ card'.Numbered (n + p.state.gained q.state) := by
  rcases h.stirs_or_withdraws hrules with hstirs | hwithdraws
  · obtain ⟨card', hcards, horder⟩ := Tracker.Stirs.of_card (hcard ▸ hstirs.order)
    rw [State.gained, State.pending_of_order hcard, State.pending_of_order horder] at hroom ⊢
    exact ⟨card', horder, hn.stirs hcards hroom⟩
  · obtain ⟨card', horder, hcards⟩ := hwithdraws card hcard
    have hnone : p.state.gained q.state = 0 := by
      rw [State.gained, State.pending_of_order hcard, State.pending_of_order horder]
      exact Nat.sub_eq_zero_of_le hcards.length_le
    rw [hnone]
    exact ⟨card', horder, hn.withdraws hcards⟩

/-- A run numbers the grants that it issues. -/
theorem Issues.numbered (hrules : r.definition.order = .cardDriven rules) {k : Nat}
    (h : r.Issues k p q) {card : CardState} {n : Nat} (hcard : p.state.order = .cardDriven card)
    (hn : card.Numbered n) (hroom : n + k < UInt32.size) :
    ∃ card', q.state.order = .cardDriven card' ∧ card'.Numbered (n + k) := by
  induction h with
  | none => exact ⟨card, hcard, hn⟩
  | step hrest hstep ih =>
    rw [← Nat.add_assoc] at hroom ⊢
    obtain ⟨card', hcard', hn'⟩ := ih hcard (Nat.lt_of_le_of_lt (Nat.le_add_right _ _) hroom)
    exact hstep.numbered hrules hcard' hn' hroom

/-- Whatever happens on the way to a decision issues some number of grants. -/
theorem Plays.exists_issues (h : r.Plays p q) : ∃ k, r.Issues k p q := by
  induction h with
  | refl => exact ⟨0, .none p⟩
  | tail _ hstep ih =>
    obtain ⟨k, hk⟩ := ih
    exact ⟨_, hk.step hstep⟩

end Rules

/-! ## The grants of a game -/

namespace Game

variable {g : Game} {rules : CardRules} {s : State}

/-- In every state that is reached a number of grants have been issued. -/
theorem Reached.exists_issued {history : List TraceEntry} (h : g.Reached history s) :
    ∃ n, g.Issued n s := by
  induction h with
  | start h => exact ⟨_, .start h⟩
  | move hprior hgame hmove ih =>
    obtain ⟨n, hn⟩ := ih
    obtain ⟨p, hplays, hstate, -⟩ := Rules.plays_of_makeMove hmove
    obtain ⟨k, hk⟩ := hplays.exists_issues
    exact ⟨n + k, .move hn hgame hmove hk hstate⟩

/-- The setup numbers the grants that it issues. -/
theorem numbered_of_start {count : Nat} {seed : UInt64}
    (hrules : g.definition.order = .cardDriven rules)
    (h : g.start count seed = .ok s) (hroom : s.pending < UInt32.size) :
    ∃ card, s.order = .cardDriven card ∧ card.Numbered s.pending := by
  obtain ⟨blank, t, hblank, hstirs, rfl⟩ := course_of_start h
  obtain ⟨horder, -⟩ := blank_eq_ok hblank
  rw [hrules] at horder
  obtain ⟨card, hcards, hcard⟩ := Tracker.Stirs.of_card (horder ▸ hstirs.order)
  have hlast : (t.syncActive g.definition).stamp.order = .cardDriven card :=
    (State.syncActive_order t _).trans hcard
  rw [State.pending_of_order hlast] at hroom ⊢
  refine ⟨card, hlast, ?_⟩
  simpa using (CardState.Numbered.first _).stirs hcards (by simpa using hroom)

/-- When so many grants have been issued, the grants on the card are numbered below. -/
theorem Issued.numbered (hrules : g.definition.order = .cardDriven rules) {n : Nat}
    (h : g.Issued n s) (hroom : n < UInt32.size) :
    ∃ card, s.order = .cardDriven card ∧ card.Numbered n := by
  induction h with
  | start h => exact numbered_of_start hrules h hroom
  | @move n k s r m res p hprior hgame hmove hissues hstate ih =>
    obtain ⟨card, hcard, hn⟩ := ih (Nat.lt_of_le_of_lt (Nat.le_add_right n k) hroom)
    subst hgame
    obtain ⟨card', hcard', hn'⟩ := hissues.numbered hrules hcard hn hroom
    rw [hstate]
    exact ⟨card', hcard', hn'⟩

/-- In every state that a card-driven game reaches, the books are well formed.  They are in order,
and somebody is to move: a grant is pending or a seat is eligible.  As long as the numbers of grants
have not run out, all pending grants differ in their ids, each being numbered below the next
number. -/
theorem books_of_reached (hrules : g.definition.order = .cardDriven rules)
    {history : List TraceEntry} (h : g.Reached history s) :
    (∃ n, g.Issued n s) ∧ ∃ card, s.order = .cardDriven card ∧ card.Orderly rules ∧
      (card.grants ≠ [] ∨ card.nextEligible?.isSome = true) ∧
      ∀ n, g.Issued n s → n < UInt32.size →
        (card.grants.map (·.id)).Nodup ∧
          ∀ grant ∈ card.grants, ∃ k < card.nextGrant, grant.id = "grant-" ++ toString k.toNat := by
  obtain ⟨card, hcard⟩ := h.onCard hrules
  refine ⟨h.exists_issued, card, hcard.order, hcard.orderly, ?_, fun n hissued hroom => ?_⟩
  · by_cases hnone : card.grants = []
    · right
      rw [hcard.awaits.nextEligible? hnone]
      rfl
    · exact .inl hnone
  · obtain ⟨card', hcard', hnumbered⟩ := hissued.numbered hrules hroom
    obtain rfl : card = card' := Tracker.cardDriven.inj (hcard.order.symm.trans hcard')
    exact ⟨hnumbered.nodup, fun grant hgrant => hnumbered.exists_number hgrant⟩

end Game

/-! ## A levy -/

/-- A game that begins with free operations for both seats, and with one of them sitting out the
second card. -/
def Definition.levy : Definition :=
  { Definition.minimal "levy" with
    order := .cardDriven (.ofSeats [⟨0⟩, ⟨1⟩])
    setup := [
      .grantFreeOperation { seat := .id ⟨1⟩, uses := 2 },
      .grantFreeOperation { seat := .id ⟨0⟩ },
      .setEligibilityOverride (.id ⟨1⟩) false]
    actions := [{ id := "march" }] }

/-- The rules of that game, under the usual limits. -/
def Rules.levy : Rules := { game := .ofDefinition .levy }

/-- Where two seats start that game. -/
def State.levy : State := (Rules.levy.game.start 2 0).toOption.getD default

/-- In the levy two grants are pending in order from the start. -/
theorem Game.books_of_reached_levy :
    ∃ history card, Rules.levy.game.Reached history .levy ∧
      State.levy.order = .cardDriven card ∧ card.Orderly (.ofSeats [⟨0⟩, ⟨1⟩]) ∧
      card.grants.map (·.id) = ["grant-0", "grant-1"] ∧ (card.grants.map (·.id)).Nodup := by
  have hstart : Rules.levy.game.start 2 0 = .ok .levy := eq_ok_getD (by decide +kernel)
  have hreached := Game.Reached.start hstart
  have hissued : Rules.levy.game.Issued 2 .levy := by
    have hpending : State.levy.pending = 2 := by decide +kernel
    exact hpending ▸ Game.Issued.start hstart
  obtain ⟨-, card, hcard, horderly, -, hids⟩ := Game.books_of_reached rfl hreached
  have hgrants : State.levy.order.card?.map (fun c => c.grants.map (·.id)) =
      some ["grant-0", "grant-1"] := by decide +kernel
  rw [hcard] at hgrants
  exact ⟨_, card, hreached, hcard, horderly, Option.some.inj hgrants,
    (hids 2 hissued (by decide)).1⟩

end Tabletop
