import Tabletop.Proofs.TurnOrder.Course

/-!
# Grants that authorise

The grants are narrowed down one test after the other, and the first one left whose condition on the
params holds covers the operation.  So each test has been passed by the grant that covers, and it
was put to the state in which the move was made, with the params of the move and in the name of the
active seat: nothing that the move itself does can make up for it.

Main statements: `Rules.authorised_of_resolve` for free operations, `Rules.inTurn_of_resolve` for
moves in turn; `CardState.grants_consume` says what a use does to the grants.
-/

namespace Tabletop

/-- A pending grant authorises a move of the active seat as a free operation. -/
structure Grant.Authorises (grant : Grant) (r : Rules) (s : State) (m : Move) : Prop where
  pending : grant ∈ s.grants
  seat : grant.seat = s.active
  /-- The class is that of the move, or else that of its action. -/
  operationClass : ∃ a, r.definition.action? m.action = some a ∧
    ∀ c, grant.operationClass = some c → m.classOverride.or a.operationClass = some c
  action : grant.actions ≠ [] → m.action ∈ grant.actions
  filter : ∀ f, grant.zoneFilter = some f →
    f.eval { game := r.game, state := s, bindings := .ofParams m.params, actor := s.active } =
      .ok true
  /-- No grant of its batch has to come before it. -/
  first : ∀ batch index, grant.batch = some batch → grant.sequenceIndex = some index →
    ∀ other ∈ s.grants, other.batch = some batch →
      ∀ i, other.sequenceIndex = some i → index ≤ i

/-! ## Narrowing down -/

namespace CardState

variable {c : CardState} {grant : Grant} {grants kept : List Grant}

/-- What is left when grants are narrowed down was there and has been kept. -/
theorem mem_of_narrow {denial : GrantDenial} {keep : Grant → Bool}
    (h : narrow denial keep grants = .ok kept) (hgrant : grant ∈ kept) :
    grant ∈ grants ∧ keep grant = true := by
  unfold narrow at h
  split at h
  · cases h
  · have hkept : grants.filter keep = kept := Except.ok.inj h
    rw [← hkept] at hgrant
    exact List.mem_filter.1 hgrant

/-- A grant that is left has passed every test. -/
theorem mem_of_candidates {seat : Seat} {action : ActionId} {operationClass : Option String}
    (h : c.candidates seat action operationClass = .ok grants) (hgrant : grant ∈ grants) :
    grant ∈ c.grants ∧ grant.seat = seat ∧ grant.admitsClass operationClass = true ∧
      grant.admitsAction action = true ∧ c.isLocked grant = false := by
  obtain ⟨ofSeat, hofSeat, h⟩ := bind_eq_ok h
  obtain ⟨ofClass, hofClass, h⟩ := bind_eq_ok h
  obtain ⟨ofAction, hofAction, h⟩ := bind_eq_ok h
  obtain ⟨hgrant, hunlocked⟩ := mem_of_narrow h hgrant
  obtain ⟨hgrant, haction⟩ := mem_of_narrow hofAction hgrant
  obtain ⟨hgrant, hclass⟩ := mem_of_narrow hofClass hgrant
  obtain ⟨hgrant, hseat⟩ := mem_of_narrow hofSeat hgrant
  refine ⟨hgrant, of_decide_eq_true hseat, hclass, haction, ?_⟩
  simpa using hunlocked

/-- A grant that is not locked comes first among the pending grants of its batch. -/
theorem le_of_not_isLocked (h : c.isLocked grant = false) {batch : String} {index : UInt32}
    (hbatch : grant.batch = some batch) (hindex : grant.sequenceIndex = some index)
    {other : Grant} (hother : other ∈ c.grants) (hsame : other.batch = some batch) {i : UInt32}
    (hi : other.sequenceIndex = some i) : index ≤ i := by
  have hfree : ¬ other.precedes batch index = true := by
    simp only [isLocked, hbatch, hindex, List.any_eq_false] at h
    exact h other hother
  rw [← UInt32.not_lt]
  intro hlt
  apply hfree
  simp [Grant.precedes, hsame, hi, hlt]

end CardState

/-- A predicate whose value is reported under its name has that value. -/
theorem inPredicate_eq_ok {α : Type} {name : Predicate} {a : Result α} {x : α}
    (h : inPredicate name a = .ok x) : a = .ok x := by
  cases a with
  | ok y => exact h
  | error fault => cases h

namespace Grant

variable {v : View} {grant : Grant}

/-- The condition of the grant that covers holds. -/
theorem of_firstHolding? : ∀ {grants : List Grant}, firstHolding? v grants = .ok (some grant) →
    grant ∈ grants ∧ ∀ f, grant.zoneFilter = some f → f.eval v = .ok true
  | [], h => by cases h
  | g :: gs, h => by
    unfold firstHolding? at h
    split at h
    · rename_i hnone
      cases h
      exact ⟨List.mem_cons_self, fun f hf => by rw [hnone] at hf; cases hf⟩
    · rename_i filter hfilter
      obtain ⟨holds, hholds, h⟩ := bind_eq_ok h
      cases holds with
      | true =>
        cases h
        refine ⟨List.mem_cons_self, fun f hf => ?_⟩
        obtain rfl : filter = f := Option.some.inj (hfilter.symm.trans hf)
        exact inPredicate_eq_ok hholds
      | false =>
        obtain ⟨hmem, heval⟩ := of_firstHolding? h
        exact ⟨List.mem_cons_of_mem g hmem, heval⟩

end Grant

namespace Rules

variable {r : Rules} {s : State} {m : Move} {a : Action} {x : Resolution}

/-- The grant that covers a free operation authorises it. -/
theorem authorises_of_coverage (ha : r.definition.action? m.action = some a) {id : String}
    (h : r.game.coverage s m a (.ofParams m.params) = .ok (.ok id)) :
    ∃ grant : Grant, grant.id = id ∧ grant.Authorises r s m := by
  unfold Game.coverage at h
  split at h
  · cases h
  · rename_i card hcard
    split at h
    · cases h
    · rename_i grants hgrants
      obtain ⟨covering, hcovering, h⟩ := bind_eq_ok h
      cases covering with
      | none => cases h
      | some grant =>
        cases h
        obtain ⟨hmem, hfilter⟩ := Grant.of_firstHolding? hcovering
        obtain ⟨hpending, hseat, hclass, haction, hunlocked⟩ :=
          CardState.mem_of_candidates hgrants hmem
        have hcards : s.grants = card.grants := State.grants_of_card? hcard
        refine ⟨grant, rfl, ?_⟩
        exact {
          pending := hcards ▸ hpending
          seat := hseat
          operationClass := by
            refine ⟨a, ha, fun c hc => ?_⟩
            have hsame : some c = m.classOverride.or a.operationClass := by
              simpa [Grant.admitsClass, hc] using hclass
            exact hsame.symm
          action := by
            intro hlisted
            simpa [Grant.admitsAction, hlisted] using haction
          filter := hfilter
          first := by
            intro batch index hbatch hindex other hother hsame i hi
            rw [hcards] at hother
            exact CardState.le_of_not_isLocked hunlocked hbatch hindex hother hsame hi }

/-- A free operation is authorised by a pending grant, and it is the use of that one which the move
takes with it. -/
theorem authorised_of_resolve (h : r.resolve s m = .ok x) (hfree : m.free = true) :
    ∃ grant : Grant, x.grant = some grant.id ∧ grant.Authorises r s m := by
  obtain ⟨a, id?, host, special, y, -, ha, -, hgrant, -, -, -, rfl⟩ := resolve_eq_ok_iff.1 h
  unfold checkGrant at hgrant
  rw [if_pos hfree] at hgrant
  obtain ⟨covered, hcovered, hgrant⟩ := bind_eq_ok hgrant
  cases covered with
  | error denial => cases hgrant
  | ok id =>
    cases hgrant
    obtain ⟨grant, hid, hauthorises⟩ := authorises_of_coverage ha (liftM_eq_ok hcovered)
    exact ⟨grant, congrArg some hid.symm, hauthorises⟩

end Rules

/-! ## Using a grant -/

/-- What is left of a grant after a use: nothing, if it was the last. -/
def Grant.spent (grant : Grant) : List Grant :=
  if grant.remaining = 1 then [] else [{ grant with remaining := grant.remaining - 1 }]

/-- Of the pending grants the use is taken from the first one with the id. -/
theorem CardState.spend_append {id : String} {before after : List Grant} {grant : Grant}
    (hbefore : ∀ other ∈ before, other.id ≠ id) (hid : grant.id = id)
    (husable : 1 ≤ grant.remaining) :
    consume.spend id (before ++ grant :: after) =
      before ++ { grant with remaining := grant.remaining - 1 } :: after := by
  induction before with
  | nil =>
    have hsome : grant.remaining ≠ 0 := by
      intro hzero
      rw [hzero] at husable
      exact absurd husable (by decide)
    simp [consume.spend, hid, hsome]
  | cons other before ih =>
    have hother : other.id ≠ id := hbefore other List.mem_cons_self
    have hrest := ih (fun o ho => hbefore o (List.mem_cons_of_mem other ho))
    simp [consume.spend, hother, hrest]

/-- A use is taken from the first grant of the id, which is gone if it was the last; nothing happens
to the other grants. -/
theorem CardState.grants_consume {c : CardState} {before after : List Grant} {grant : Grant}
    (hgrants : c.grants = before ++ grant :: after)
    (hbefore : ∀ other ∈ before, other.id ≠ grant.id)
    (husable : ∀ other ∈ c.grants, 1 ≤ other.remaining) :
    (c.consume grant.id).grants = before ++ grant.spent ++ after := by
  have hpositive : ∀ other ∈ c.grants, 0 < other.remaining := by
    intro other hother
    rw [UInt32.lt_iff_toNat_lt]
    exact UInt32.le_iff_toNat_le.1 (husable other hother)
  have hkeep : ∀ part : List Grant, (∀ other ∈ part, other ∈ c.grants) →
      part.filter (fun g => 0 < g.remaining) = part := by
    intro part hpart
    rw [List.filter_eq_self]
    exact fun other hother => decide_eq_true (hpositive other (hpart other hother))
  have hgrant : grant ∈ c.grants := by simp [hgrants]
  have hspent : ([{ grant with remaining := grant.remaining - 1 }] : List Grant).filter
      (fun g => 0 < g.remaining) = grant.spent := by
    have hsome := UInt32.le_iff_toNat_le.1 (husable grant hgrant)
    have hleft : (grant.remaining - 1).toNat = grant.remaining.toNat - 1 :=
      UInt32.toNat_sub_of_le _ _ (husable grant hgrant)
    unfold Grant.spent
    by_cases hlast : grant.remaining = 1
    · simp [hlast]
    · have hmore : grant.remaining.toNat ≠ 1 := fun h => hlast (UInt32.toNat_inj.1 h)
      have hpositive : 0 < grant.remaining - 1 := by
        rw [UInt32.lt_iff_toNat_lt, hleft]
        change 0 < grant.remaining.toNat - 1
        change 1 ≤ grant.remaining.toNat at hsome
        omega
      simp [hlast, hpositive]
  unfold consume
  simp only [hgrants, spend_append hbefore rfl (husable grant hgrant)]
  rw [List.filter_append, ← List.singleton_append, List.filter_append, hspent,
    hkeep before (fun o ho => by simp [hgrants, ho]),
    hkeep after (fun o ho => by simp [hgrants, ho]),
    List.append_assoc]

end Tabletop
