import Tabletop.Proofs.TurnOrder.Coverage
import Tabletop.Proofs.TurnOrder.Grants

/-!
# The ledger of the grants

Between the check of a free operation and the use of its grant lie the effects of the move, which
may issue grants themselves, and from one move to the next there may be many grants pending.  What
becomes of them all is written down in a ledger beside the run: the grants that were issued, with
the uses that they were issued with, and the ids under which uses were taken.  The ledger balances:
what is left of a pending grant are the uses it was issued with less those that were taken.

Main statement: `Game.ledger_of_reached`.
-/

namespace Tabletop

open Relation (ReflTransGen)

/-! ## Balance -/

/-- Of numbered grants one can be used and nothing happens to the others. -/
theorem CardState.Numbered.grants_consume {c : CardState} {n : Nat} (h : c.Numbered n)
    {grant : Grant} (hgrant : grant ∈ c.grants)
    (husable : ∀ other ∈ c.grants, 1 ≤ other.remaining) :
    ∃ before after, c.grants = before ++ grant :: after ∧
      (∀ other ∈ before ++ after, other.id ≠ grant.id) ∧
      (c.consume grant.id).grants = before ++ grant.spent ++ after := by
  obtain ⟨before, after, hgrants⟩ := List.append_of_mem hgrant
  have hdistinct := h.nodup
  rw [hgrants, List.map_append, List.map_cons] at hdistinct
  have hothers : ∀ other ∈ before ++ after, other.id ≠ grant.id := by
    intro other hother hid
    apply (List.nodup_middle.1 hdistinct).notMem
    rw [← hid, ← List.map_append]
    exact List.mem_map_of_mem hother
  refine ⟨before, after, hgrants, hothers, ?_⟩
  exact CardState.grants_consume hgrants
    (fun other hother => hothers other (List.mem_append_left _ hother)) husable

/-- What a game has done with grants. -/
structure Ledger where
  /-- The grants that were issued, as they were issued. -/
  issued : List Grant := []
  /-- The ids of the grants that were used, one for each use. -/
  used : List String := []

namespace Ledger

/-- The ledger with further grants issued. -/
def issue (L : Ledger) (grants : List Grant) : Ledger := { L with issued := L.issued ++ grants }

/-- The ledger with a use of a grant taken, if one is. -/
def use (L : Ledger) (id? : Option String) : Ledger := { L with used := L.used ++ id?.toList }

/-- What is left of a grant that was issued: all of it but the uses that were taken. -/
structure Leaves (L : Ledger) (first grant : Grant) : Prop where
  same : grant = { first with remaining := grant.remaining }
  uses : grant.remaining.toNat + L.used.count grant.id = first.remaining.toNat

/-- A ledger agrees with the books of a card. -/
structure Balances (L : Ledger) (c : CardState) : Prop where
  numbered : c.Numbered L.issued.length
  ids : L.issued.map (·.id) = (List.range L.issued.length).map CardState.grantId
  /-- Only what was issued was used. -/
  used : ∀ id ∈ L.used, id ∈ L.issued.map (·.id)
  /-- Nothing was used more often than it may. -/
  within : ∀ first ∈ L.issued, L.used.count first.id ≤ first.remaining.toNat
  left : ∀ grant ∈ c.grants, ∃ first ∈ L.issued, L.Leaves first grant

variable {L : Ledger} {c c' : CardState} {first grant : Grant}

/-- What is left of a grant has its id. -/
theorem Leaves.id_eq (h : L.Leaves first grant) : grant.id = first.id := by
  rw [h.same]

/-- Issuing nothing leaves the ledger. -/
theorem issue_nil (L : Ledger) : L.issue [] = L := by
  simp [issue]

/-- Grants that are issued one time after another are issued together. -/
theorem issue_issue (L : Ledger) (grants more : List Grant) :
    (L.issue grants).issue more = L.issue (grants ++ more) := by
  simp [issue]

/-- Without a use the ledger is left alone. -/
theorem use_none (L : Ledger) : L.use none = L := by
  simp [use]

/-- A use counts for the grant with its id, and for no other one. -/
theorem count_use (L : Ledger) (id id' : String) :
    (L.use (some id)).used.count id' = L.used.count id' + if id' = id then 1 else 0 := by
  by_cases hid : id' = id
  · simp [use, hid]
  · simp [use, hid, Ne.symm hid]

namespace Leaves

/-- A use of another grant leaves it as it is. -/
theorem use_other (h : L.Leaves first grant) {id : String} (hne : grant.id ≠ id) :
    (L.use (some id)).Leaves first grant := by
  refine ⟨h.same, ?_⟩
  rw [count_use, if_neg hne]
  exact h.uses

/-- A use leaves one less of the grant, if it leaves any. -/
theorem use_self (h : L.Leaves first grant) (husable : 1 ≤ grant.remaining) {g : Grant}
    (hg : g ∈ grant.spent) : (L.use (some grant.id)).Leaves first g := by
  unfold Grant.spent at hg
  split at hg
  · cases hg
  · obtain rfl := List.mem_singleton.1 hg
    have hone : 1 ≤ grant.remaining.toNat := UInt32.le_iff_toNat_le.1 husable
    have hless : (grant.remaining - 1).toNat = grant.remaining.toNat - 1 :=
      UInt32.toNat_sub_of_le _ _ husable
    have huses := h.uses
    refine ⟨?_, ?_⟩
    · rw [h.same]
    · rw [count_use, if_pos rfl, hless]
      change grant.remaining.toNat - 1 + (L.used.count grant.id + 1) = first.remaining.toNat
      omega

end Leaves

namespace Balances

/-- All grants that were issued differ. -/
theorem nodup (h : L.Balances c) : (L.issued.map (·.id)).Nodup := by
  rw [h.ids]
  exact List.nodup_range.map CardState.grantId_injective

/-- Grants that have been issued under the same id are the same. -/
theorem eq_of_id (h : L.Balances c) {first other : Grant} (hfirst : first ∈ L.issued)
    (hother : other ∈ L.issued) (hid : first.id = other.id) : first = other :=
  List.inj_on_of_nodup_map h.nodup hfirst hother hid

/-- Before anything happens the ledger is empty. -/
theorem empty (seats : List Seat) : ({} : Ledger).Balances { seatOrder := seats } where
  numbered := .first seats
  ids := rfl
  used := by simp
  within := by simp
  left := by simp

/-- A grant that is about to be issued has not been used. -/
theorem count_next (h : L.Balances c) : L.used.count (CardState.grantId L.issued.length) = 0 := by
  rw [List.count_eq_zero]
  intro hused
  have hissued := h.used _ hused
  rw [h.ids] at hissued
  obtain ⟨k, hk, hid⟩ := List.mem_map.1 hissued
  have hsame : k = L.issued.length := CardState.grantId_injective hid
  rw [List.mem_range, hsame] at hk
  exact Nat.lt_irrefl _ hk

/-- Issuing a grant keeps the balance, if there is a number for it. -/
theorem issue (h : L.Balances c) (offer : GrantOffer) (seat : Seat)
    (hroom : L.issued.length + 1 < UInt32.size) {g : Grant}
    (hg : (c.grant offer seat).grants = c.grants ++ [g]) :
    (L.issue [g]).Balances (c.grant offer seat) := by
  have hid : g.id = CardState.grantId L.issued.length := by
    have hlast : (c.grant offer seat).grants.getLast? = some g := by simp [hg]
    have hnew : g.id = "grant-" ++ toString c.nextGrant.toNat := by
      simp only [CardState.grant, CardState.takeGrantId, List.getLast?_append,
        List.getLast?_singleton, Option.some_or, Option.some.injEq] at hlast
      rw [← hlast]
      rfl
    rw [hnew, h.numbered.next]
    rfl
  have hlength : (L.issue [g]).issued.length = L.issued.length + 1 := by simp [Ledger.issue]
  refine {
    numbered := ?_, ids := ?_, used := fun id hused => ?_, within := fun first hfirst => ?_,
    left := fun grant hgrant => ?_ }
  · rw [hlength]
    exact h.numbered.grant offer seat hroom
  · rw [hlength, List.range_succ, List.map_append, ← h.ids]
    simp [Ledger.issue, hid]
  · have hbefore := h.used id hused
    simp only [Ledger.issue, List.map_append, List.mem_append]
    exact .inl hbefore
  · rcases List.mem_append.1 hfirst with hold | hnew
    · exact h.within first hold
    · obtain rfl := List.mem_singleton.1 hnew
      have hunused : (L.issue [first]).used.count first.id = 0 := by
        rw [hid]
        exact h.count_next
      omega
  · rw [hg] at hgrant
    rcases List.mem_append.1 hgrant with hold | hnew
    · obtain ⟨first, hfirst, hleaves⟩ := h.left grant hold
      exact ⟨first, List.mem_append_left _ hfirst, hleaves.same, hleaves.uses⟩
    · obtain rfl := List.mem_singleton.1 hnew
      refine ⟨grant, List.mem_append_right _ (List.mem_singleton_self _), rfl, ?_⟩
      have hunused : (L.issue [grant]).used.count grant.id = 0 := by
        rw [hid]
        exact h.count_next
      omega

/-- Whatever effects do keeps the balance, as long as there are numbers. -/
theorem stirs (h : L.Balances c) (hstirs : c.Stirs c') {new : List Grant}
    (hnew : c'.grants = c.grants ++ new) (hroom : L.issued.length + new.length < UInt32.size) :
    (L.issue new).Balances c' := by
  induction hstirs generalizing new with
  | refl =>
    have hnone : new = [] := by simpa using hnew
    rw [hnone, issue_nil]
    exact h
  | @tail c₁ c₂ hfirst hlast ih =>
    obtain ⟨earlier, hearlier⟩ := CardState.Stirs.prefix_grants hfirst
    cases hlast with
    | override seat eligible =>
      have hbalances := ih hnew hroom
      exact { hbalances with numbered := ⟨hbalances.numbered.next, hbalances.numbered.ids⟩ }
    | @grant offer seat huses =>
      -- The grants issued so far, and the one that is issued now.
      obtain ⟨g, hg⟩ : ∃ g, (c₁.grant offer seat).grants = c₁.grants ++ [g] := ⟨_, rfl⟩
      have hsplit : new = earlier ++ [g] := by
        rw [hg, ← hearlier, List.append_assoc] at hnew
        exact (List.append_cancel_left hnew).symm
      rw [hsplit, List.length_append, List.length_singleton] at hroom
      have hbalances := ih hearlier.symm (by omega)
      rw [hsplit, ← issue_issue]
      refine hbalances.issue offer seat ?_ hg
      simpa [Ledger.issue, Nat.add_assoc] using hroom

/-- Grants that are given up are no longer pending; the ledger need not know. -/
theorem drops (h : L.Balances c) (hdrops : c.Drops c') : L.Balances c' :=
  { h with
    numbered := h.numbered.withdraws hdrops.withdraws
    left := fun grant hgrant => h.left grant (hdrops.grants.subset hgrant) }

/-- A use of a pending grant keeps the balance. -/
theorem use (h : L.Balances c) (hgrant : grant ∈ c.grants)
    (husable : ∀ other ∈ c.grants, 1 ≤ other.remaining) :
    (L.use (some grant.id)).Balances (c.consume grant.id) := by
  obtain ⟨first, hfirst, hleaves⟩ := h.left grant hgrant
  obtain ⟨before, after, hgrants, hothers, hconsumed⟩ := h.numbered.grants_consume hgrant husable
  refine {
    numbered := h.numbered.withdraws (.consume c grant.id), ids := h.ids, used := fun id hid => ?_,
    within := fun f hf => ?_, left := fun g hg => ?_ }
  · rcases List.mem_append.1 hid with hold | hnew
    · exact h.used id hold
    · have hnew : id = grant.id := by simpa using hnew
      rw [hnew, hleaves.id_eq]
      exact List.mem_map_of_mem hfirst
  · have hwithin := h.within f hf
    rw [count_use]
    by_cases hid : f.id = grant.id
    · -- The grant that is used has a use left, so its count may grow by one.
      have hsame : f = first := h.eq_of_id hf hfirst (hid.trans hleaves.id_eq)
      have hone : 1 ≤ grant.remaining.toNat := UInt32.le_iff_toNat_le.1 (husable grant hgrant)
      have huses := hleaves.uses
      rw [hleaves.id_eq] at huses
      rw [if_pos hid, hsame]
      omega
    · rw [if_neg hid]
      exact hwithin
  · rw [hconsumed, List.append_assoc, List.mem_append, List.mem_append] at hg
    have hother : g ∈ before ++ after →
        ∃ f ∈ L.issued, (L.use (some grant.id)).Leaves f g := by
      intro hmem
      have hpending : g ∈ c.grants := by
        have hor := List.mem_append.1 hmem
        simp only [hgrants, List.mem_append, List.mem_cons]
        exact hor.imp_right .inr
      obtain ⟨f, hf, hleft⟩ := h.left g hpending
      exact ⟨f, hf, hleft.use_other (hothers g hmem)⟩
    rcases hg with hbefore | hspent | hafter
    · exact hother (List.mem_append_left _ hbefore)
    · exact ⟨first, hfirst, hleaves.use_self (husable grant hgrant) hspent⟩
    · exact hother (List.mem_append_right _ hafter)

end Balances

end Ledger

/-! ## Along a run -/

/-- The grants that come to be pending from one state to another.  They are behind those that
were. -/
def State.newGrants (s t : State) : List Grant := t.grants.drop s.grants.length

/-- The turn order goes on, with the grants that are issued on the way. -/
inductive State.Issues (d : Definition) : List Grant → State → State → Prop where
  | none (s : State) : Issues d [] s s
  | turn {new : List Grant} {s t u : State} (hrest : Issues d new s t) (hstep : t.Turns d u) :
      Issues d (new ++ t.newGrants u) s u

/-- A move is made, with the grants that are issued on the way: by its actions, by the triggers that
react to it, and as the game goes on to the next decision. -/
inductive Rules.Course (r : Rules) (s : State) (m : Move) (x : Resolution) :
    List Grant → State → Prop where
  | intro {p q p' : Progress} {events : List Event} {onward : List Grant} {t : State}
      (hresolve : r.resolve s m = .ok x)
      (htake : r.takeActions m { x with grant := none } = .ok (p, events))
      (hspend : r.takeActions m x = .ok (q, events))
      (hreact : r.reactTo x s.active events q = .ok p')
      (hon : State.Issues r.definition onward (p'.state.afterMove r.definition m).2 t) :
      Course r s m x (s.newGrants p.state ++ q.state.newGrants p'.state ++ onward) t

/-- The states that are reached by moves from a start, each with the ledger of its grants. -/
inductive Game.Recorded (g : Game) : Ledger → State → Prop where
  | start {count : Nat} {seed : UInt64} {s : State} (h : g.start count seed = .ok s) :
      Recorded g { issued := s.grants } s
  | move {L : Ledger} {s : State} {r : Rules} {m : Move} {x : Resolution} {new : List Grant}
      {res : MoveResult} (hprior : Recorded g L s) (hgame : r.game = g)
      (hmove : r.makeMove s m = .ok res) (hcourse : r.Course s m x new res.state) :
      Recorded g ((L.issue new).use x.grant) res.state

namespace State

variable {s t : State} {d : Definition} {rules : CardRules} {card card' : CardState} {L : Ledger}
  {new : List Grant}

/-- The pending grants of a game by cards are those on its card. -/
theorem grants_of_order (hcard : s.order = .cardDriven card) : s.grants = card.grants := by
  simp [grants, hcard, Tracker.card?]

/-- Whatever effects do, grants are issued behind those that are pending. -/
theorem grants_of_stirs (h : s.Stirs t) : t.grants = s.grants ++ s.newGrants t := by
  have hprefix : s.grants <+: t.grants := by
    have horder := h.order
    unfold grants
    generalize s.order = before at horder ⊢
    generalize t.order = after at horder ⊢
    cases horder with
    | same => exact List.prefix_refl _
    | card hcards => exact hcards.prefix_grants
  obtain ⟨new, hnew⟩ := hprefix
  simp [newGrants, ← hnew]

/-- Where effects are at work, the ledger goes on in balance. -/
theorem Stirs.balances (h : s.Stirs t) (hcard : s.order = .cardDriven card)
    (hL : L.Balances card) (hroom : L.issued.length + (s.newGrants t).length < UInt32.size) :
    ∃ card', t.order = .cardDriven card' ∧ card.Stirs card' ∧
      (L.issue (s.newGrants t)).Balances card' := by
  obtain ⟨card', hcards, horder⟩ := Tracker.Stirs.of_card (hcard ▸ h.order)
  have hnew := grants_of_stirs h
  rw [grants_of_order hcard, grants_of_order horder] at hnew
  exact ⟨card', horder, hcards, hL.stirs hcards hnew hroom⟩

/-- No grant comes to be pending where grants are only dropped. -/
theorem newGrants_of_drops (hcard : s.order = .cardDriven card)
    (hcard' : t.order = .cardDriven card') (h : card.Drops card') : s.newGrants t = [] := by
  unfold newGrants
  rw [grants_of_order hcard, grants_of_order hcard']
  exact List.drop_eq_nil_of_le h.grants.length_le

/-- A step of the turn order keeps the ledger in balance. -/
theorem Turns.balances (hrules : d.order = .cardDriven rules) (h : s.Turns d t)
    (hcard : s.order = .cardDriven card) (hL : L.Balances card)
    (hroom : L.issued.length + (s.newGrants t).length < UInt32.size) :
    ∃ card', t.order = .cardDriven card' ∧ (L.issue (s.newGrants t)).Balances card' := by
  have hdropped : s.Drops t →
      ∃ card', t.order = .cardDriven card' ∧ (L.issue (s.newGrants t)).Balances card' := by
    intro hdrops
    obtain ⟨card', horder, hcards⟩ := hdrops card hcard
    refine ⟨card', horder, ?_⟩
    rw [newGrants_of_drops hcard horder hcards, Ledger.issue_nil]
    exact hL.drops hcards
  cases h with
  | stirs hstirs =>
    obtain ⟨card', horder, -, hbalances⟩ := hstirs.balances hcard hL hroom
    exact ⟨card', horder, hbalances⟩
  | skip => exact hdropped (drops_skipStuckSeat hrules s)
  | rotate => exact hdropped (drops_rotate s d)
  | sync => exact hdropped (drops_of_order (syncActive_order s d))

/-- As the turn order goes on, the ledger stays in balance. -/
theorem Issues.balances (hrules : d.order = .cardDriven rules) (h : State.Issues d new s t)
    (hcard : s.order = .cardDriven card) (hL : L.Balances card)
    (hroom : L.issued.length + new.length < UInt32.size) :
    ∃ card', t.order = .cardDriven card' ∧ (L.issue new).Balances card' := by
  induction h with
  | none =>
    refine ⟨card, hcard, ?_⟩
    rw [Ledger.issue_nil]
    exact hL
  | @turn new s t u hrest hstep ih =>
    rw [List.length_append] at hroom
    obtain ⟨card₁, hcard₁, h₁⟩ := ih hcard (by omega)
    have hmore : (L.issue new).issued.length + (t.newGrants u).length < UInt32.size := by
      simp only [Ledger.issue, List.length_append]
      omega
    obtain ⟨card₂, hcard₂, h₂⟩ := hstep.balances hrules hcard₁ h₁ hmore
    rw [Ledger.issue_issue] at h₂
    exact ⟨card₂, hcard₂, h₂⟩

/-- Where the turn order goes on, some grants are issued on the way. -/
theorem GoesOn.exists_issues (h : s.GoesOn d t) : ∃ new, State.Issues d new s t := by
  induction h with
  | refl => exact ⟨[], .none s⟩
  | tail _ hstep ih =>
    obtain ⟨new, hnew⟩ := ih
    exact ⟨_, hnew.turn hstep⟩

/-- After a move the turn order has gone on from where the move is written down. -/
theorem Closes.goesOn {m : Move} (h : s.Closes d m t) : (s.afterMove d m).2.GoesOn d t := by
  unfold Closes at h
  split at h
  · obtain ⟨s', hstirs, hon⟩ := h
    exact .head (.stirs hstirs) (.head (.rotate s') hon)
  · exact h

end State

namespace Rules

variable {r : Rules} {s t : State} {m : Move} {x : Resolution} {p q : Progress}
  {events : List Event} {rules : CardRules} {card : CardState} {L : Ledger} {new : List Grant}

/-- Taking the actions of a move comes down to what its effects do and, last of all, to the use of
the grant that covers it. -/
theorem takeActions_spends (hx : r.resolve s m = .ok x)
    (h : r.takeActions m x = .ok (q, events)) :
    ∃ p, r.takeActions m { x with grant := none } = .ok (p, events) ∧ s.Stirs p.state ∧
      q.state = p.state.spendGrant x.grant := by
  obtain ⟨⟨p₁, hostEvents⟩, hhost, h⟩ := bind_eq_ok h
  obtain ⟨⟨p₂, specialEvents⟩, hspecial, h⟩ := bind_eq_ok h
  cases h
  have htake : r.takeActions m { x with grant := none } =
      .ok (p₂, x.session.events ++ hostEvents ++ specialEvents) :=
    bind_ok hhost (bind_ok hspecial rfl)
  refine ⟨p₂, htake, ?_, ?_⟩
  · have hruns : r.Runs { state := s } x.session := runs_of_resolve hx
    have hwith : x.special.isSome = m.compound.isSome := special_of_resolve hx
    obtain ⟨p, htakes, hp⟩ := takeActions_takes (x := { x with grant := none }) hruns hwith htake
    obtain rfl : p₂ = p := hp
    exact htakes.stirs.state
  · cases x.grant with
    | none => rfl
    | some id => rfl

/-- Every move that is made has a course. -/
theorem exists_course {res : MoveResult} (h : r.makeMove s m = .ok res) :
    ∃ x new, r.Course s m x new res.state := by
  obtain ⟨x, p', hx, hcarry, hcloses⟩ := course_of_makeMove h
  obtain ⟨⟨q, events⟩, hspend, hreact⟩ := bind_eq_ok hcarry
  obtain ⟨p, htake, -, -⟩ := takeActions_spends hx hspend
  obtain ⟨onward, hon⟩ := hcloses.goesOn.exists_issues
  exact ⟨x, _, .intro hx htake hspend hreact hon⟩

/-- The grant that a move uses is pending when the move begins. -/
theorem mem_of_grant (h : r.resolve s m = .ok x) {id : String} (hid : x.grant = some id) :
    ∃ grant ∈ s.grants, grant.id = id := by
  cases hfree : m.free with
  | false =>
    obtain ⟨hnone, -⟩ := inTurn_of_resolve h hfree
    rw [hnone] at hid
    cases hid
  | true =>
    obtain ⟨grant, hgrant, hauthorises⟩ := authorised_of_resolve h hfree
    exact ⟨grant, hauthorises.pending, Option.some.inj (hgrant.symm.trans hid)⟩

/-- A move keeps the ledger in balance. -/
theorem Course.balances (hrules : r.definition.order = .cardDriven rules)
    (h : s.OnCard rules card) (hL : L.Balances card) (hcourse : r.Course s m x new t)
    (hroom : L.issued.length + new.length < UInt32.size) :
    ∃ card', t.order = .cardDriven card' ∧ ((L.issue new).use x.grant).Balances card' := by
  obtain ⟨hx, htake, hspend, hreact, hon⟩ := hcourse
  rename_i p q p' events onward
  obtain ⟨p₀, htake₀, hstirs, hspent⟩ := takeActions_spends hx hspend
  obtain rfl : p = p₀ := congrArg Prod.fst (Except.ok.inj (htake.symm.trans htake₀))
  simp only [List.length_append] at hroom
  obtain ⟨card₁, hcard₁, hcards, h₁⟩ := hstirs.balances h.order hL (by omega)
  -- Between the effects of the move and the triggers, the grant that covers the move is used.
  have hused : ∃ card₂, q.state.order = .cardDriven card₂ ∧
      ((L.issue (s.newGrants p.state)).use x.grant).Balances card₂ := by
    rw [hspent]
    cases hgrant : x.grant with
    | none =>
      rw [Ledger.use_none]
      exact ⟨card₁, hcard₁, h₁⟩
    | some id =>
      obtain ⟨grant, hmem, rfl⟩ := mem_of_grant hx hgrant
      rw [State.grants_of_order h.order] at hmem
      have hpending : grant ∈ card₁.grants := hcards.prefix_grants.subset hmem
      refine ⟨card₁.consume grant.id, ?_, h₁.use hpending (h.orderly.stirs hcards).usable⟩
      simp [State.spendGrant, State.consumeGrant, hcard₁, Tracker.modifyCard]
  obtain ⟨card₂, hcard₂, h₂⟩ := hused
  obtain ⟨card₃, hcard₃, -, h₃⟩ := (reactTo_stirs hreact).state.balances hcard₂ h₂ (by
    simp only [Ledger.use, Ledger.issue, List.length_append]
    omega)
  obtain ⟨card₄, hcard₄, hdrops⟩ := State.drops_afterMove hrules p'.state m card₃ hcard₃
  obtain ⟨card₅, hcard₅, h₅⟩ := hon.balances hrules hcard₄ (h₃.drops hdrops) (by
    simp only [Ledger.use, Ledger.issue, List.length_append]
    omega)
  have hsame : ((((L.issue (s.newGrants p.state)).use x.grant).issue
      (q.state.newGrants p'.state)).issue onward) =
      (L.issue (s.newGrants p.state ++ q.state.newGrants p'.state ++ onward)).use x.grant := by
    simp [Ledger.use, Ledger.issue]
  rw [hsame] at h₅
  exact ⟨card₅, hcard₅, h₅⟩

/-- What a move does with the grants while its actions are taken: its effects issue some behind
those that are pending, then a use is taken from the one that covers it, and nothing happens to the
others. -/
theorem grants_of_makeMove (h : s.OnCard rules card) {n : Nat} (hnumbered : card.Numbered n)
    (hx : r.resolve s m = .ok x) {res : MoveResult} (hmove : r.makeMove s m = .ok res) :
    ∃ p q events new, r.takeActions m { x with grant := none } = .ok (p, events) ∧
      r.takeActions m x = .ok (q, events) ∧ p.state.grants = s.grants ++ new ∧
      (x.grant = none → q.state.grants = s.grants ++ new) ∧
      ∀ grant ∈ s.grants, x.grant = some grant.id →
        ∃ before after, s.grants = before ++ grant :: after ∧
          (∀ other ∈ before ++ after, other.id ≠ grant.id) ∧
          q.state.grants = before ++ grant.spent ++ after ++ new := by
  obtain ⟨x', p', hx', hcarry, -⟩ := course_of_makeMove hmove
  obtain rfl : x = x' := Except.ok.inj (hx.symm.trans hx')
  obtain ⟨⟨q, events⟩, hspend, -⟩ := bind_eq_ok hcarry
  obtain ⟨p, htake, hstirs, hspent⟩ := takeActions_spends hx hspend
  have hnew := State.grants_of_stirs hstirs
  refine ⟨p, q, events, s.newGrants p.state, htake, hspend, hnew, fun hnone => ?_, ?_⟩
  · rw [hspent, hnone]
    exact hnew
  · intro grant hgrant hid
    obtain ⟨card₁, hcard₁, horder₁⟩ := Tracker.Stirs.of_card (h.order ▸ hstirs.order)
    rw [State.grants_of_order horder₁, State.grants_of_order h.order] at hnew
    rw [State.grants_of_order h.order] at hgrant ⊢
    obtain ⟨before, after, hgrants, hothers, -⟩ :=
      hnumbered.grants_consume hgrant h.orderly.usable
    refine ⟨before, after, hgrants, hothers, ?_⟩
    have hconsumed : q.state.order = .cardDriven (card₁.consume grant.id) := by
      simp [hspent, hid, State.spendGrant, State.consumeGrant, horder₁, Tracker.modifyCard]
    have hsplit : card₁.grants = before ++ grant :: (after ++ s.newGrants p.state) := by
      rw [hnew, hgrants, List.append_assoc, List.cons_append]
    rw [State.grants_of_order hconsumed, List.append_assoc]
    exact CardState.grants_consume hsplit
      (fun other hother => hothers other (List.mem_append_left _ hother))
      (h.orderly.stirs hcard₁).usable

end Rules

namespace Game

variable {g : Game} {rules : CardRules} {s : State} {L : Ledger} {history : List TraceEntry}

/-- Every state that is reached has a ledger. -/
theorem Reached.exists_recorded (h : g.Reached history s) : ∃ L, g.Recorded L s := by
  induction h with
  | start h => exact ⟨_, .start h⟩
  | move hprior hgame hmove ih =>
    obtain ⟨L, hL⟩ := ih
    obtain ⟨x, new, hcourse⟩ := Rules.exists_course hmove
    exact ⟨_, .move hL hgame hmove hcourse⟩

/-- A state with a ledger has been reached by moves from a start. -/
theorem Recorded.reached (h : g.Recorded L s) : ∃ history, g.Reached history s := by
  induction h with
  | start h => exact ⟨_, .start h⟩
  | move hprior hgame hmove hcourse ih =>
    obtain ⟨history, hreached⟩ := ih
    exact ⟨_, hreached.move hgame hmove⟩

/-- The ledger of a card-driven game balances, as long as the numbers of grants do not run out. -/
theorem Recorded.balances (hrules : g.definition.order = .cardDriven rules) (h : g.Recorded L s)
    (hroom : L.issued.length < UInt32.size) :
    ∃ card, s.order = .cardDriven card ∧ L.Balances card := by
  induction h with
  | @start count seed s h =>
    obtain ⟨blank, t, hblank, hstirs, hs⟩ := course_of_start h
    obtain ⟨horder, -⟩ := blank_eq_ok hblank
    rw [hrules] at horder
    have hlast : s.order = t.order := by
      rw [hs]
      exact State.syncActive_order t _
    have hgrants : s.grants = blank.newGrants t := by
      have hnone : blank.grants = [] := State.grants_of_order horder
      have hall := State.grants_of_stirs hstirs
      rw [hnone, List.nil_append] at hall
      rw [← hall]
      unfold State.grants
      rw [hlast]
    rw [hgrants] at hroom
    obtain ⟨card, hcard, -, hbalances⟩ :=
      hstirs.balances horder (Ledger.Balances.empty _) (by simpa using hroom)
    refine ⟨card, hlast.trans hcard, ?_⟩
    rw [hgrants]
    simpa [Ledger.issue] using hbalances
  | @move L s r m x new res hprior hgame hmove hcourse ih =>
    have hlength : L.issued.length + new.length < UInt32.size := by
      simpa [Ledger.use, Ledger.issue] using hroom
    obtain ⟨history, hreached⟩ := hprior.reached
    obtain ⟨card, hcard⟩ := hreached.onCard hrules
    obtain ⟨card', hcard', hbalances⟩ := ih (by omega)
    obtain rfl : card = card' := Tracker.cardDriven.inj (hcard.order.symm.trans hcard')
    subst hgame
    exact hcourse.balances hrules hcard hbalances hlength

/-- Every free operation of a card-driven game is authorised by a pending grant, and a move in turn
uses none.  As long as the numbers of grants do not run out, that grant is the only one of its id,
the move takes one use from it and does nothing to the others, neither to those that were pending
nor to those that it issues itself; so nothing is ever used more often than the uses it was issued
with, and what is left of a grant that is pending are those that have not been taken. -/
theorem ledger_of_reached (hrules : g.definition.order = .cardDriven rules)
    (h : g.Reached history s) :
    (∃ L, g.Recorded L s) ∧
      (∀ (r : Rules) (m : Move) (x : Resolution), r.game = g → r.resolve s m = .ok x →
        (m.free = true → ∃ grant : Grant, x.grant = some grant.id ∧ grant.Authorises r s m) ∧
          (m.free = false → x.grant = none)) ∧
      ∀ L, g.Recorded L s → L.issued.length < UInt32.size →
        (L.issued.map (·.id)).Nodup ∧
          (∀ first ∈ L.issued, L.used.count first.id ≤ first.remaining.toNat) ∧
          (∀ grant ∈ s.grants, ∃ first ∈ L.issued, L.Leaves first grant) ∧
          ∀ (r : Rules) (m : Move) (x : Resolution) (res : MoveResult), r.game = g →
            r.resolve s m = .ok x → r.makeMove s m = .ok res →
            ∃ p q events new, r.takeActions m { x with grant := none } = .ok (p, events) ∧
              r.takeActions m x = .ok (q, events) ∧ p.state.grants = s.grants ++ new ∧
              (x.grant = none → q.state.grants = s.grants ++ new) ∧
              ∀ grant ∈ s.grants, x.grant = some grant.id →
                ∃ before after, s.grants = before ++ grant :: after ∧
                  (∀ other ∈ before ++ after, other.id ≠ grant.id) ∧
                  q.state.grants = before ++ grant.spent ++ after ++ new := by
  refine ⟨h.exists_recorded, fun r m x hgame hx => ⟨fun hfree => ?_, fun hfree => ?_⟩, ?_⟩
  · exact Rules.authorised_of_resolve hx hfree
  · exact (Rules.inTurn_of_resolve hx hfree).1
  · intro L hL hroom
    obtain ⟨card, hcard, hbalances⟩ := hL.balances hrules hroom
    refine ⟨hbalances.nodup, hbalances.within, fun grant hgrant => ?_, ?_⟩
    · rw [State.grants_of_order hcard] at hgrant
      exact hbalances.left grant hgrant
    · intro r m x res hgame hx hmove
      obtain ⟨card', honCard⟩ := h.onCard hrules
      obtain rfl : card' = card := Tracker.cardDriven.inj (honCard.order.symm.trans hcard)
      exact Rules.grants_of_makeMove honCard hbalances.numbered hx hmove

end Game

/-- Of the two uses that a seat is granted in a levy, marching as a free operation takes one. -/
theorem Game.ledger_of_reached_levy :
    ∃ history x res grant before after new q events, Rules.levy.game.Reached history .levy ∧
      Rules.levy.resolve .levy (Move.named "march").freely = .ok x ∧
      Rules.levy.makeMove .levy (Move.named "march").freely = .ok res ∧
      x.grant = some grant.id ∧ grant.Authorises .levy .levy (Move.named "march").freely ∧
      grant.remaining = 2 ∧ State.levy.grants = before ++ grant :: after ∧
      Rules.levy.takeActions (Move.named "march").freely x = .ok (q, events) ∧
      q.state.grants = before ++ grant.spent ++ after ++ new := by
  have hstart : Rules.levy.game.start 2 0 = .ok .levy := eq_ok_getD (by decide +kernel)
  obtain ⟨x, hx⟩ : ∃ x, Rules.levy.resolve .levy (Move.named "march").freely = .ok x :=
    exists_ok_of_isOk (by decide +kernel)
  obtain ⟨res, hres⟩ : ∃ res, Rules.levy.makeMove .levy (Move.named "march").freely = .ok res :=
    exists_ok_of_isOk (by decide +kernel)
  have hreached := Game.Reached.start hstart
  obtain ⟨-, hauthorised, hledger⟩ := Game.ledger_of_reached rfl hreached
  obtain ⟨grant, hgrant, hauthorises⟩ := (hauthorised .levy _ x rfl hx).1 rfl
  have hissued : State.levy.grants.length < UInt32.size := by decide +kernel
  obtain ⟨-, -, -, hmoves⟩ := hledger _ (.start hstart) hissued
  obtain ⟨p, q, events, new, -, hspend, -, -, huses⟩ := hmoves .levy _ x res rfl hx hres
  obtain ⟨before, after, hgrants, -, hspent⟩ := huses grant hauthorises.pending hgrant
  have htwo : grant.remaining = 2 := by
    have hall : ∀ other ∈ State.levy.grants, other.seat = State.levy.active →
        other.remaining = 2 := by
      decide +kernel
    exact hall grant hauthorises.pending hauthorises.seat
  exact ⟨_, x, res, grant, before, after, new, q, events, hreached, hx, hres, hgrant, hauthorises,
    htwo, hgrants, hspend, hspent⟩

end Tabletop
