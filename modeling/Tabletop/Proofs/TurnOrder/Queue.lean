import Tabletop.Proofs.TurnOrder.Closing
import Tabletop.Proofs.TurnOrder.Ledger

/-!
# The queue of the grants

Pending grants stand in a queue.  They are issued at its back, and the holder of the front one is
designated to move.  Which of them are locked is another matter: a grant waits for those of its
batch with a smaller index, wherever they stand.  The two orders agree if the grants of a batch are
issued in the order of their indices; then the front grant is never locked.  Otherwise its holder
can find all its grants locked, each of them waiting for a grant of another seat.

A seat that passes gives up all its grants, locked or not, and so does a seat that is passed over
because it cannot move.  No grant is lost in another way, unless by its use.

Main statement: `Game.queue_of_reached`.
-/

namespace Tabletop

/-! ## Locks -/

namespace Grant

variable {grant other : Grant}

/-- Whether a grant waits for another one: it is of the same batch and has a smaller index. -/
def waitsFor (grant other : Grant) : Bool :=
  match grant.batch, grant.sequenceIndex with
  | some batch, some index => other.precedes batch index
  | _, _ => false

/-- A grant waits for another one of its batch that has a smaller index. -/
theorem waitsFor_iff :
    grant.waitsFor other = true ↔
      ∃ batch i j, grant.batch = some batch ∧ grant.sequenceIndex = some i ∧
        other.batch = some batch ∧ other.sequenceIndex = some j ∧ j < i := by
  unfold waitsFor
  cases hbatch : grant.batch with
  | none => simp
  | some batch =>
    cases hindex : grant.sequenceIndex with
    | none => simp
    | some i => simp [precedes, Option.any_eq_true]

/-- A grant waits for all that the grants that it waits for wait for. -/
theorem waitsFor_trans {last : Grant} (h : grant.waitsFor other = true)
    (h' : other.waitsFor last = true) : grant.waitsFor last = true := by
  obtain ⟨batch, i, j, hbatch, hi, hother, hj, hlt⟩ := waitsFor_iff.1 h
  obtain ⟨batch', j', k, hother', hj', hlast, hk, hlt'⟩ := waitsFor_iff.1 h'
  obtain rfl : batch = batch' := Option.some.inj (hother.symm.trans hother')
  obtain rfl : j = j' := Option.some.inj (hj.symm.trans hj')
  exact waitsFor_iff.2 ⟨batch, i, k, hbatch, hi, hlast, hk, UInt32.lt_trans hlt' hlt⟩

/-- Waiting goes down in the indices, so it comes to an end. -/
theorem index_lt_of_waitsFor (h : grant.waitsFor other = true) :
    (other.sequenceIndex.getD 0).toNat < (grant.sequenceIndex.getD 0).toNat := by
  obtain ⟨batch, i, j, -, hi, -, hj, hlt⟩ := waitsFor_iff.1 h
  rw [hi, hj]
  exact UInt32.lt_iff_toNat_lt.1 hlt

/-- Uses do not matter for whether a grant waits for another one. -/
theorem waitsFor_terms (grant other : Grant) :
    grant.terms.waitsFor other.terms = grant.waitsFor other := rfl

end Grant

namespace CardState

variable {c : CardState} {rules : CardRules} {seat : Seat} {grant front : Grant} {rest : List Grant}

/-- A grant is locked exactly if it waits for one that is pending. -/
theorem isLocked_iff :
    c.isLocked grant = true ↔ ∃ other ∈ c.grants, grant.waitsFor other = true := by
  unfold isLocked Grant.waitsFor
  cases grant.batch with
  | none => simp
  | some batch =>
    cases grant.sequenceIndex with
    | none => simp
    | some index => exact List.any_eq_true

/-- A locked grant waits for one that is not. -/
theorem exists_unlocked {grant : Grant} (h : c.isLocked grant = true) :
    ∃ other ∈ c.grants, grant.waitsFor other = true ∧ c.isLocked other = false := by
  obtain ⟨other, hother, hwaits⟩ := isLocked_iff.1 h
  cases hlocked : c.isLocked other with
  | false => exact ⟨other, hother, hwaits, hlocked⟩
  | true =>
    have := Grant.index_lt_of_waitsFor hwaits
    obtain ⟨last, hlast, hwaits', hfree⟩ := exists_unlocked hlocked
    exact ⟨last, hlast, Grant.waitsFor_trans hwaits hwaits', hfree⟩
termination_by (grant.sequenceIndex.getD 0).toNat

/-- A seat that finds no grant of its own unlocked waits for other seats with each of them. -/
theorem unlocked_or_waits (c : CardState) (seat : Seat) :
    (∃ grant ∈ c.grants, grant.seat = seat ∧ c.isLocked grant = false) ∨
      ∀ grant ∈ c.grants, grant.seat = seat →
        ∃ other ∈ c.grants, grant.waitsFor other = true ∧ other.seat ≠ seat ∧
          c.isLocked other = false := by
  by_cases hsome : ∃ grant ∈ c.grants, grant.seat = seat ∧ c.isLocked grant = false
  · exact .inl hsome
  · refine .inr fun grant hgrant hseat => ?_
    have hlocked : c.isLocked grant = true := by
      by_contra hfree
      exact hsome ⟨grant, hgrant, hseat, Bool.not_eq_true _ ▸ hfree⟩
    obtain ⟨other, hother, hwaits, hfree⟩ := exists_unlocked hlocked
    exact ⟨other, hother, hwaits, fun hsame => hsome ⟨other, hother, hsame, hfree⟩, hfree⟩

/-- While a grant is pending, the holder of the first one is to move. -/
theorem seat?_of_front (h : c.grants = front :: rest) : c.seat? = some front.seat := by
  simp [seat?, h]

/-! ## Giving up grants -/

/-- To pass, or to be passed over, is to give up all grants; where none is pending, there are none
to give up. -/
theorem grants_skip (c : CardState) (seat : Seat) :
    (c.skip seat).grants = c.grants.filter (fun grant => grant.seat ≠ seat) := by
  unfold skip
  split
  · rfl
  · rename_i hclosed
    have hnone : c.grants = [] := by simpa [inGrantWindow] using hclosed
    split <;> simp [pass, hnone]

/-- After a move the grants are the same, except that passing gives up those of the seat. -/
theorem grants_afterMove (c : CardState) (rules : CardRules) (seat : Seat) (m : Move) :
    (c.afterMove rules seat m).grants =
      if m.free = false ∧ rules.passAction = some m.action then
        c.grants.filter (fun grant => grant.seat ≠ seat)
      else c.grants := by
  unfold afterMove
  cases m.free with
  | true => simp
  | false =>
    by_cases hpass : rules.passAction = some m.action
    · cases hwindow : c.inGrantWindow with
      | true => simp [hpass, declineGrants]
      | false =>
        have hnone : c.grants = [] := by simpa [inGrantWindow] using hwindow
        simp [hpass, pass, hnone]
    · have hact : (c.act seat).grants = c.grants := by
        unfold act
        split <;> rfl
      simp [hpass, hact]

/-- A use takes nothing from the grants of other ids. -/
theorem mem_consume_of_ne {id : String} (husable : ∀ grant ∈ c.grants, 1 ≤ grant.remaining)
    (hgrant : grant ∈ c.grants) (hne : grant.id ≠ id) : grant ∈ (c.consume id).grants := by
  have hspent : ∀ {grants : List Grant}, grant ∈ grants → grant ∈ consume.spend id grants := by
    intro grants hmem
    induction grants with
    | nil => cases hmem
    | cons first rest ih =>
      unfold consume.spend
      rcases List.mem_cons.1 hmem with rfl | hrest
      · rw [if_neg hne]
        exact List.mem_cons_self
      · split
        · exact List.mem_cons_of_mem _ hrest
        · exact List.mem_cons_of_mem _ (ih hrest)
  refine List.mem_filter.2 ⟨hspent hgrant, decide_eq_true ?_⟩
  rw [UInt32.lt_iff_toNat_lt]
  exact UInt32.le_iff_toNat_le.1 (husable grant hgrant)

end CardState

/-! ## In the order of issue -/

/-- The grants of each batch have been issued in the order of their indices. -/
def Ledger.InSequence (L : Ledger) : Prop :=
  L.issued.Pairwise (fun first later => first.waitsFor later = false)

namespace State

variable {s t : State} {d : Definition} {rules : CardRules} {card : CardState} {L : Ledger}
  {new : List Grant}

/-- The grants that are pending stand in the order in which they were issued. -/
def Queued (s : State) (L : Ledger) : Prop :=
  (s.grants.map Grant.terms).Sublist (L.issued.map Grant.terms)

/-- Where the grants of each batch have been issued in the order of their indices, the front one
does not wait for any. -/
theorem Queued.isLocked_front (h : s.Queued L) (hsequence : L.InSequence)
    (hcard : s.order = .cardDriven card) {front : Grant} {rest : List Grant}
    (hgrants : card.grants = front :: rest) : card.isLocked front = false := by
  have hissued : (L.issued.map Grant.terms).Pairwise
      (fun first later => first.waitsFor later = false) := by
    simp only [List.pairwise_map, Grant.waitsFor_terms]
    exact hsequence
  have hpending : card.grants.Pairwise (fun first later => first.waitsFor later = false) := by
    rw [← grants_of_order hcard]
    exact List.pairwise_map.1 (hissued.sublist h)
  by_contra hlocked
  obtain ⟨other, hother, hwaits⟩ := CardState.isLocked_iff.1 (Bool.not_eq_false _ ▸ hlocked)
  rw [hgrants] at hother hpending
  rcases List.mem_cons.1 hother with rfl | hbehind
  · exact Nat.lt_irrefl _ (Grant.index_lt_of_waitsFor hwaits)
  · cases hwaits.symm.trans (List.rel_of_pairwise_cons hpending hbehind)

/-- Where grants are dropped, those left are in their order. -/
theorem Drops.grants_sublist (h : s.Drops t) (hcard : s.order = .cardDriven card) :
    t.grants.Sublist s.grants := by
  obtain ⟨card', horder, hdrops⟩ := h card hcard
  rw [grants_of_order hcard, grants_of_order horder]
  exact hdrops.grants

/-- A use leaves the terms of the grants, in their order. -/
theorem terms_spendGrant (s : State) (id? : Option String) :
    ((s.spendGrant id?).grants.map Grant.terms).Sublist (s.grants.map Grant.terms) := by
  cases id? with
  | none => exact .refl _
  | some id =>
    unfold spendGrant consumeGrant grants
    cases s.order with
    | cardDriven card => exact CardState.terms_consume card id
    | _ => exact .refl _

/-- A step of the turn order issues grants at the back of the queue. -/
theorem Turns.grants_sublist (hrules : d.order = .cardDriven rules) (h : s.Turns d t)
    (hcard : s.order = .cardDriven card) : t.grants.Sublist (s.grants ++ s.newGrants t) := by
  have hdropped (hdrops : s.Drops t) : t.grants.Sublist (s.grants ++ s.newGrants t) :=
    (hdrops.grants_sublist hcard).trans (List.sublist_append_left _ _)
  cases h with
  | stirs hstirs => rw [← grants_of_stirs hstirs]
  | skip => exact hdropped (drops_skipStuckSeat hrules s)
  | rotate => exact hdropped (drops_rotate s d)
  | sync => exact hdropped (drops_of_order (syncActive_order s d))

/-- As the turn order goes on, grants are issued at the back of the queue. -/
theorem Issues.grants_sublist (hrules : d.order = .cardDriven rules) (h : State.Issues d new s t)
    (hs : s.OnCard rules card) :
    (∃ card', t.OnCard rules card') ∧ t.grants.Sublist (s.grants ++ new) := by
  induction h with
  | none => exact ⟨⟨card, hs⟩, List.sublist_append_left _ _⟩
  | @turn new s t u hrest hstep ih =>
    obtain ⟨⟨card₁, h₁⟩, hsublist⟩ := ih hs
    refine ⟨h₁.turns hrules hstep, (hstep.grants_sublist hrules h₁.order).trans ?_⟩
    rw [← List.append_assoc]
    exact hsublist.append_right _

end State

/-- A move issues grants at the back of the queue, and the others stay in their order. -/
theorem Rules.Course.terms_sublist {r : Rules} {s t : State} {m : Move} {x : Resolution}
    {new : List Grant} {rules : CardRules} {card : CardState}
    (hrules : r.definition.order = .cardDriven rules) (h : s.OnCard rules card)
    (hcourse : r.Course s m x new t) :
    (t.grants.map Grant.terms).Sublist ((s.grants ++ new).map Grant.terms) := by
  obtain ⟨hx, htake, hspend, hreact, hon⟩ := hcourse
  rename_i p q p' events onward
  obtain ⟨p₀, htake₀, hstirs, hspent⟩ := takeActions_spends hx hspend
  obtain rfl : p = p₀ := congrArg Prod.fst (Except.ok.inj (htake.symm.trans htake₀))
  have hcarried : r.carryOut m s.active x = .ok p' := bind_ok hspend hreact
  obtain ⟨card₁, hcard₁, -⟩ := onCard_carryOut h hx hcarried
  obtain ⟨card₂, h₂⟩ := onCard_afterMove h hrules hx hcarried
  have hissued : p.state.grants = s.grants ++ s.newGrants p.state := State.grants_of_stirs hstirs
  have hreacted : p'.state.grants = q.state.grants ++ q.state.newGrants p'.state :=
    State.grants_of_stirs (reactTo_stirs hreact).state
  have hused : (q.state.grants.map Grant.terms).Sublist (p.state.grants.map Grant.terms) := by
    rw [hspent]
    exact p.state.terms_spendGrant x.grant
  have hwritten : (p'.state.afterMove r.definition m).2.grants.Sublist p'.state.grants :=
    (State.drops_afterMove hrules p'.state m).grants_sublist hcard₁
  have hlast := (hon.grants_sublist hrules h₂).2.trans (hwritten.append_right onward)
  refine (hlast.map Grant.terms).trans ?_
  rw [hreacted, ← List.append_assoc, ← List.append_assoc, ← hissued]
  simp only [List.map_append]
  exact (hused.append_right _).append_right _

/-- In every state that is reached the pending grants stand in the order in which they were
issued. -/
theorem Game.Recorded.queued {g : Game} {rules : CardRules} {L : Ledger} {s : State}
    (hrules : g.definition.order = .cardDriven rules) (h : g.Recorded L s) : s.Queued L := by
  induction h with
  | start => exact .refl _
  | @move L s r m x new res hprior hgame hmove hcourse ih =>
    obtain ⟨history, hreached⟩ := hprior.reached
    obtain ⟨card, hcard⟩ := hreached.onCard hrules
    subst hgame
    refine (hcourse.terms_sublist hrules hcard).trans ?_
    change List.Sublist _ ((L.issued ++ new).map Grant.terms)
    rw [List.map_append, List.map_append]
    exact ih.append_right _

/-! ## What is lost -/

namespace State

variable {s t : State} {d : Definition} {rules : CardRules} {card : CardState} {grant : Grant}

/-- A pending grant is still pending when the turn order is stirred. -/
theorem Stirs.mem_grants (h : s.Stirs t) (hgrant : grant ∈ s.grants) : grant ∈ t.grants := by
  rw [grants_of_stirs h]
  exact List.mem_append_left _ hgrant

/-- Rotating the order leaves the grants. -/
theorem grants_rotate (s : State) (d : Definition) : (s.rotate d).grants = s.grants := by
  unfold rotate grants
  rw [syncActive_order]
  cases horder : s.order <;> simp [horder, Tracker.card?]

/-- Settling a card leaves the grants. -/
theorem grants_settleCard (hrules : d.order = .cardDriven rules)
    (hcard : s.order = .cardDriven card) :
    (s.settleCard d rules).2.grants = card.grants := by
  cases hover : card.isOver rules with
  | true =>
    have hnext := (syncActive_order (s.endCard d) d).trans (endCard_order hrules hcard)
    rw [settleCard_of_isOver hcard hover]
    exact (grants_of_order hnext).trans rfl
  | false =>
    rw [settleCard_of_not_isOver hcard hover]
    exact grants_of_order ((syncActive_order _ _).trans hcard)

/-- A seat that is passed over gives up its grants. -/
theorem grants_skipStuckSeat (hrules : d.order = .cardDriven rules)
    (hcard : s.order = .cardDriven card) :
    (s.skipStuckSeat d).2.grants = s.grants.filter (fun grant => grant.seat ≠ s.active) := by
  rw [skipStuckSeat_eq hrules hcard, grants_settleCard hrules rfl, CardState.grants_skip,
    grants_of_order hcard]

/-- A seat that passes gives up its grants, and another move gives up none. -/
theorem grants_afterMove (hrules : d.order = .cardDriven rules) (hcard : s.order = .cardDriven card)
    (m : Move) :
    (s.afterMove d m).2.grants =
      if m.free = false ∧ rules.passAction = some m.action then
        s.grants.filter (fun grant => grant.seat ≠ s.active)
      else s.grants := by
  rw [afterMove_eq hrules hcard, grants_settleCard hrules rfl, CardState.grants_afterMove,
    grants_of_order hcard]

end State

namespace Rules

variable {r : Rules} {s : State} {m : Move} {x : Resolution} {p q : Progress} {rules : CardRules}
  {card : CardState} {grant : Grant}

/-- In the course of a move a seat gives up its grants. -/
inductive GivesUp (r : Rules) (s : State) (m : Move) : Seat → Prop where
  /-- It passes. -/
  | pass (hpass : r.definition.isPass m.action = true) (hfree : m.free = false) :
      GivesUp r s m s.active
  /-- It is active and has nothing to decide, so that it is passed over. -/
  | stuck {p : Progress} (hcomes : r.ComesTo s m p)
    (hundecided : r.atDecision p.state = .ok false) :
      GivesUp r s m p.state.active

/-- A grant that is pending when the turn is closed is pending afterwards. -/
theorem mem_grants_of_endTurn (h : r.endTurn p = .ok q) (hgrant : grant ∈ p.state.grants) :
    grant ∈ q.state.grants := by
  obtain ⟨p', s, hbefore, hstart, hafter⟩ := endTurn_eq_ok h
  have hstarted : grant ∈ s.grants := by
    refine (startTurn_rotates hstart).mem_grants ?_
    rw [State.grants_rotate]
    exact hbefore.state.mem_grants hgrant
  exact hafter.state.mem_grants hstarted

/-- A transition gives up no grants but those of the active seat. -/
theorem mem_grants_of_transition (hrules : r.definition.order = .cardDriven rules)
    (hcard : p.state.order = .cardDriven card) (h : r.transition p = .ok q)
    (hgrant : grant ∈ p.state.grants) (hseat : grant.seat ≠ p.state.active) :
    grant ∈ q.state.grants := by
  have hcards : r.definition.order.cards?.isSome = true := by
    rw [hrules]
    rfl
  have hskipped : grant ∈ (p.state.skipStuckSeat r.definition).2.grants := by
    rw [State.grants_skipStuckSeat hrules hcard]
    exact List.mem_filter.2 ⟨hgrant, decide_eq_true hseat⟩
  cases transits_of_transition h with
  | resume _ hleave h =>
    subst h
    exact (leavePhase_stirs hleave).mem_grants hgrant
  | skip _ _ _ h =>
    subst h
    exact hskipped
  | skipAll _ _ _ h => exact mem_grants_of_endTurn h hskipped
  | enter _ hno => cases hcards.symm.trans hno
  | close _ hno => cases hcards.symm.trans hno

/-- On the way to the next decision a grant is lost only if its seat gives it up. -/
theorem mem_grants_of_passes (hrules : r.definition.order = .cardDriven rules)
    (hs : s.OnCard rules card) {k : Nat} (h : r.Passes k p q) (hcomes : r.ComesTo s m p)
    (hgrant : grant ∈ p.state.grants) (hkept : ¬r.GivesUp s m grant.seat) :
    grant ∈ q.state.grants := by
  induction h with
  | none => exact hgrant
  | next hundecided htransition _ ih =>
    obtain ⟨card', hcard'⟩ := onCard_of_comesTo hs hrules hcomes
    refine ih (hcomes.next hundecided htransition) ?_
    refine mem_grants_of_transition hrules hcard'.order htransition hgrant fun hseat => hkept ?_
    rw [hseat]
    exact .stuck hcomes hundecided

/-- A move loses no grant but the one that it uses and those of seats that give them up. -/
theorem mem_grants_of_makeMove (hrules : r.definition.order = .cardDriven rules)
    (hs : s.OnCard rules card) (hx : r.resolve s m = .ok x) {res : MoveResult}
    (h : r.makeMove s m = .ok res) (hgrant : grant ∈ s.grants) (hunused : x.grant ≠ some grant.id)
    (hkept : ¬r.GivesUp s m grant.seat) : grant ∈ res.state.grants := by
  obtain ⟨q, hcomes, -, hres⟩ := comesTo_of_makeMove h
  obtain ⟨x', p, p', k, hx', hcarried, hout, hpasses⟩ := hcomes
  obtain rfl : x = x' := Except.ok.inj (hx.symm.trans hx')
  obtain ⟨s₁, hbefore, hafter⟩ := carryOut_stirs hx hcarried
  obtain ⟨card₁, -, h₁⟩ := hs.stirs hbefore
  obtain ⟨card₂, hcard₂, hactive, -⟩ := onCard_carryOut hs hx hcarried
  have hspent : grant ∈ (s₁.spendGrant x.grant).grants := by
    have hpending := hbefore.mem_grants hgrant
    cases hid : x.grant with
    | none => exact hpending
    | some id =>
      have hconsumed : (s₁.spendGrant (some id)).order = .cardDriven (card₁.consume id) := by
        simp [State.spendGrant, State.consumeGrant, h₁.order, Tracker.modifyCard]
      rw [State.grants_of_order hconsumed]
      rw [State.grants_of_order h₁.order] at hpending
      exact CardState.mem_consume_of_ne h₁.orderly.usable hpending
        fun hsame => hunused (hid.trans (congrArg some hsame.symm))
  have hwritten : grant ∈ (p.state.afterMove r.definition m).2.grants := by
    rw [State.grants_afterMove hrules hcard₂]
    split
    · rename_i hpass
      refine List.mem_filter.2 ⟨hafter.mem_grants hspent, decide_eq_true fun hseat => hkept ?_⟩
      rw [hseat, hactive]
      refine .pass ?_ hpass.1
      simp [Definition.isPass, hrules, TurnOrder.cards?, hpass.2]
    · exact hafter.mem_grants hspent
  have hout' : grant ∈ p'.state.grants := by
    rcases setsOut_iff.1 hout with ⟨-, hended⟩ | ⟨-, rfl⟩
    · exact mem_grants_of_endTurn hended hwritten
    · exact hwritten
  have hcomes : r.ComesTo s m p' := ⟨x, p, p', 0, hx, hcarried, hout, .none p'⟩
  rw [hres]
  exact (State.Stirs.stamp q.state).mem_grants
    (mem_grants_of_passes hrules hs hpasses hcomes hout' hkept)

end Rules

/-- In every state that a card-driven game reaches, the front grant designates the seat to move, and
the pending grants stand in the order in which they were issued.  If those of each batch were issued
in the order of their indices, the front grant is not locked.  In any case its holder has a grant
that is not locked, or with each of its grants it waits for an unlocked one of another seat.  A move
loses no grant but the one that it uses and those of seats that pass or are passed over. -/
theorem Game.queue_of_reached {g : Game} {rules : CardRules} {s : State} {history : List TraceEntry}
    (hrules : g.definition.order = .cardDriven rules) (h : g.Reached history s) :
    (∃ L, g.Recorded L s) ∧ ∃ card, s.order = .cardDriven card ∧
      (∀ front rest, card.grants = front :: rest →
        card.seat? = some front.seat ∧
          (∀ L, g.Recorded L s → s.Queued L ∧ (L.InSequence → card.isLocked front = false)) ∧
          ((∃ grant ∈ card.grants, grant.seat = front.seat ∧ card.isLocked grant = false) ∨
            ∀ grant ∈ card.grants, grant.seat = front.seat →
              ∃ other ∈ card.grants, grant.waitsFor other = true ∧ other.seat ≠ front.seat ∧
                card.isLocked other = false)) ∧
      ∀ (r : Rules) (m : Move) (x : Resolution) (res : MoveResult), r.game = g →
        r.resolve s m = .ok x → r.makeMove s m = .ok res → ∀ grant ∈ card.grants,
          grant ∈ res.state.grants ∨ x.grant = some grant.id ∨ r.GivesUp s m grant.seat := by
  obtain ⟨card, hcard⟩ := h.onCard hrules
  refine ⟨h.exists_recorded, card, hcard.order,
    fun front rest hgrants => ⟨?_, fun L hL => ?_, ?_⟩, ?_⟩
  · exact CardState.seat?_of_front hgrants
  · have hqueued := hL.queued hrules
    exact ⟨hqueued, fun hsequence => hqueued.isLocked_front hsequence hcard.order hgrants⟩
  · exact card.unlocked_or_waits front.seat
  · intro r m x res hgame hx hmove grant hgrant
    subst hgame
    rw [← State.grants_of_order hcard.order] at hgrant
    by_cases hused : x.grant = some grant.id
    · exact .inr (.inl hused)
    · by_cases hgiven : r.GivesUp s m grant.seat
      · exact .inr (.inr hgiven)
      · exact .inl (Rules.mem_grants_of_makeMove hrules hcard hx hmove hgrant hused hgiven)

/-! ## A procession -/

/-- A game in which two seats are to march one after the other, at two places of a route.  The
second seat is granted its march first. -/
def Definition.procession (second first : UInt32) : Definition :=
  { Definition.minimal "procession" with
    order := .cardDriven { seats := [⟨0⟩, ⟨1⟩], passAction := some "pass" }
    setup := [
      .grantFreeOperation
        { seat := .id ⟨1⟩, sequence := some { batch := "route", index := second } },
      .grantFreeOperation
        { seat := .id ⟨0⟩, sequence := some { batch := "route", index := first } }]
    actions := [{ id := "pass" }, { id := "march" }] }

/-- The rules of that game, under the usual limits. -/
def Rules.procession (second first : UInt32) : Rules :=
  { game := .ofDefinition (.procession second first) }

/-- Where two seats start that game. -/
def State.procession (second first : UInt32) : State :=
  ((Rules.procession second first).game.start 2 0).toOption.getD default

/-- If the second seat is to lead, its grant is issued first and has the smaller index: it can be
used. -/
theorem Game.queue_of_reached_procession :
    ∃ history L card front rest, (Rules.procession 0 1).game.Reached history (.procession 0 1) ∧
      (Rules.procession 0 1).game.Recorded L (.procession 0 1) ∧ L.InSequence ∧
      (State.procession 0 1).order = .cardDriven card ∧ card.grants = front :: rest ∧
      card.seat? = some front.seat ∧ front.seat = ⟨1⟩ ∧ card.isLocked front = false := by
  have hstart : (Rules.procession 0 1).game.start 2 0 = .ok (.procession 0 1) :=
    eq_ok_getD (by decide +kernel)
  have hreached := Game.Reached.start hstart
  have hrecorded := Game.Recorded.start hstart
  have hsequence : Ledger.InSequence { issued := (State.procession 0 1).grants } := by
    unfold Ledger.InSequence
    decide +kernel
  obtain ⟨-, card, hcard, hfront, -⟩ := Game.queue_of_reached rfl hreached
  have hholder : (State.procession 0 1).order.card?.map (·.seat?) = some (some ⟨1⟩) := by
    decide +kernel
  rw [hcard] at hholder
  have hpending : card.grants ≠ [] := by
    rw [← State.grants_of_order hcard]
    decide +kernel
  obtain ⟨front, rest, hgrants⟩ := List.exists_cons_of_ne_nil hpending
  obtain ⟨hseat, hqueued, -⟩ := hfront front rest hgrants
  have hsecond : front.seat = ⟨1⟩ := Option.some.inj (hseat.symm.trans (Option.some.inj hholder))
  exact ⟨_, _, card, front, rest, hreached, hrecorded, hsequence, hcard, hgrants, hseat, hsecond,
    (hqueued _ hrecorded).2 hsequence⟩

/-- If the first seat is to lead, the second one holds the front grant and can only pass.  That
gives up its grant, which the march of the first seat would have unlocked. -/
theorem Game.locked_front_procession :
    ∃ history card res, (Rules.procession 1 0).game.Reached history (.procession 1 0) ∧
      (State.procession 1 0).order = .cardDriven card ∧ card.grants ≠ [] ∧
      card.seat? = some ⟨1⟩ ∧
      (∀ grant ∈ card.grants, grant.seat = ⟨1⟩ →
        card.isLocked grant = true ∧ (card.consume "grant-1").isLocked grant = false) ∧
      (Rules.procession 1 0).makeMove (.procession 1 0) (.named "pass") = .ok res ∧
      ∀ grant ∈ res.state.grants, grant.seat ≠ ⟨1⟩ := by
  have hstart : (Rules.procession 1 0).game.start 2 0 = .ok (.procession 1 0) :=
    eq_ok_getD (by decide +kernel)
  obtain ⟨card, hcard⟩ : ∃ card, (State.procession 1 0).order.card? = some card :=
    Option.isSome_iff_exists.1 (by decide +kernel)
  obtain ⟨res, hres⟩ : ∃ res,
      (Rules.procession 1 0).makeMove (.procession 1 0) (.named "pass") = .ok res :=
    exists_ok_of_isOk (by decide +kernel)
  have hbooks : (State.procession 1 0).order.card?.map (fun card =>
      (card.grants.isEmpty, card.seat?, card.grants.all fun grant =>
        grant.seat ≠ ⟨1⟩ || card.isLocked grant && !(card.consume "grant-1").isLocked grant)) =
      some (false, some ⟨1⟩, true) := by
    decide +kernel
  have hafter : ((Rules.procession 1 0).makeMove (.procession 1 0) (.named "pass")).toOption.map
      (fun res => res.state.grants.all (fun grant => grant.seat ≠ ⟨1⟩)) = some true := by
    decide +kernel
  rw [hcard] at hbooks
  rw [hres] at hafter
  obtain ⟨hsome, hrest⟩ := Prod.ext_iff.1 (Option.some.inj hbooks)
  obtain ⟨hholder, hlocked⟩ := Prod.ext_iff.1 hrest
  refine ⟨_, card, res, .start hstart, Tracker.eq_of_card? hcard, ?_, hholder, ?_, hres, ?_⟩
  · simpa using hsome
  · simpa [or_iff_not_imp_left] using hlocked
  · simpa using Option.some.inj hafter

end Tabletop
