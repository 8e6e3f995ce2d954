import Tabletop.Proofs.Play.Faults
import Tabletop.Proofs.Play.Completeness
import Tabletop.Proofs.TurnOrder.Coverage

/-!
# Filters of grants

The filter of a grant reads the params of a free operation, and it is put to the move as it stands:
before anybody asks for the params that the move still lacks.  So a move that is only begun does not
come to its first decision but to a fault, if the filter reads what has not been decided yet.  A
listing begins every action so, and with it the search for the next decision after a move.

Main statement: `Rules.filterUnbound_iff`, with a passage that is granted to one place only.
-/

namespace Tabletop

/-! ## The search for a grant -/

namespace Grant

variable {v : View} {grants : List Grant} {grant : Grant}

/-- A grant is passed over: it has a filter, which does not hold. -/
def PassedOver (v : View) (grant : Grant) : Prop :=
  ∃ f, grant.zoneFilter = some f ∧ f.eval v = .ok false

/-- A grant is passed over exactly if it does not pass the test of its filter. -/
theorem passedOver_iff :
    grant.PassedOver v ↔ holdsIn (.grantFilter grant.id) grant.zoneFilter v = .ok false := by
  unfold PassedOver holdsIn
  cases grant.zoneFilter with
  | none => simp
  | some f =>
    simp only [Option.some.injEq, exists_eq_left']
    constructor
    · intro h
      rw [h]
      rfl
    · exact inPredicate_eq_ok

/-- The search for a grant whose filter holds fails exactly if the filter of one fails before any
other holds, and it blames that filter. -/
theorem firstHolding?_eq_error_iff {fault : Fault} :
    firstHolding? v grants = .error fault ↔
      ∃ before grant after f cause, grants = before ++ grant :: after ∧
        (∀ other ∈ before, other.PassedOver v) ∧ grant.zoneFilter = some f ∧
        f.eval v = .error cause ∧ fault = .predicate (.grantFilter grant.id) cause := by
  have hcons : ∀ g gs, firstHolding? v (g :: gs) =
      (holdsIn (.grantFilter g.id) g.zoneFilter v >>= fun passes =>
        if passes then .ok (some g) else firstHolding? v gs) := by
    intro g gs
    rw [firstHolding?]
    cases g.zoneFilter <;> rfl
  rw [search_eq_error_iff rfl hcons]
  simp only [holdsIn_eq_error_iff, ← passedOver_iff]
  constructor
  · rintro ⟨before, grant, after, hgrants, hbefore, f, cause, hfilter, heval, rfl⟩
    exact ⟨before, grant, after, f, cause, hgrants, hbefore, hfilter, heval, rfl⟩
  · rintro ⟨before, grant, after, f, cause, hgrants, hbefore, hfilter, heval, rfl⟩
    exact ⟨before, grant, after, hgrants, hbefore, f, cause, hfilter, heval, rfl⟩

/-- The filter of a grant fails for a free operation: the grant would cover the operation but for
its filter, those before it are passed over, and the filter comes to a fault. -/
structure FailsFor (grant : Grant) (r : Rules) (s : State) (m : Move) (a : Action) (cause : Fault) :
    Prop where
  reached : ∃ card before after, s.order.card? = some card ∧
    card.candidates s.active m.action (m.classOverride.or a.operationClass) =
      .ok (before ++ grant :: after) ∧
    ∀ other ∈ before, other.PassedOver
      { game := r.game, state := s, bindings := .ofParams m.params, actor := s.active }
  fails : ∃ f, grant.zoneFilter = some f ∧
    f.eval { game := r.game, state := s, bindings := .ofParams m.params, actor := s.active } =
      .error cause

/-- A grant whose filter fails is pending. -/
theorem FailsFor.pending {r : Rules} {s : State} {m : Move} {a : Action} {cause : Fault}
    (h : grant.FailsFor r s m a cause) : grant ∈ s.grants := by
  obtain ⟨card, before, after, hcard, hcandidates, -⟩ := h.reached
  rw [State.grants_of_card? hcard]
  exact (CardState.mem_of_candidates hcandidates
    (List.mem_append_right before List.mem_cons_self)).1

end Grant

namespace Rules

variable {r : Rules} {s : State} {m : Move} {a : Action}

/-- The search for a grant that covers a free operation fails exactly if a filter fails. -/
theorem coverage_eq_error_iff {fault : Fault} :
    r.game.coverage s m a (.ofParams m.params) = .error fault ↔
      ∃ (grant : Grant) (cause : Fault), grant.FailsFor r s m a cause ∧
        fault = .predicate (.grantFilter grant.id) cause := by
  unfold Game.coverage
  constructor
  · intro h
    split at h
    · cases h
    · rename_i card hcard
      split at h
      · cases h
      · rename_i grants hgrants
        rcases bind_eq_error h with h | ⟨found, -, h⟩
        · obtain ⟨before, grant, after, f, cause, rfl, hbefore, hfilter, heval, rfl⟩ :=
            Grant.firstHolding?_eq_error_iff.1 h
          exact ⟨grant, cause, ⟨⟨card, before, after, hcard, hgrants, hbefore⟩, f, hfilter, heval⟩,
            rfl⟩
        · cases found <;> cases h
  · rintro ⟨grant, cause,
      ⟨⟨card, before, after, hcard, hcandidates, hbefore⟩, f, hfilter, heval⟩, rfl⟩
    have hsearch := Grant.firstHolding?_eq_error_iff.2
      ⟨before, grant, after, f, cause, rfl, hbefore, hfilter, heval, rfl⟩
    simp only [hcard, hcandidates, hsearch]
    rfl

/-- The check of grants blames nothing but the filters of grants. -/
theorem checkGrant_fails (r : Rules) (s : State) (m : Move) (a : Action) :
    Fails (Stop.BlamesOnly fun name => ∃ id, name = .grantFilter id) (r.checkGrant s m a) := by
  unfold checkGrant
  refine .ite (fun _ => Fails.bind (Fails.check ?_) (fun covered _ => ?_))
    (fun _ => .ensureBind .pure)
  · cases hcoverage : r.game.coverage s m a (.ofParams m.params) with
    | ok covered => trivial
    | error fault =>
      obtain ⟨grant, cause, -, rfl⟩ := coverage_eq_error_iff.1 hcoverage
      exact ⟨grant.id, rfl⟩
  · cases covered <;> trivial

/-- The check of grants blames the filter of a grant exactly if that filter fails for a free
operation. -/
theorem checkGrant_eq_filter_iff {id : String} {cause : Fault} :
    r.checkGrant s m a = .error (.fault (.predicate (.grantFilter id) cause)) ↔
      m.free = true ∧ ∃ grant : Grant, grant.id = id ∧ grant.FailsFor r s m a cause := by
  unfold checkGrant
  cases m.free with
  | false =>
    rw [if_neg (by simp)]
    refine ⟨fun h => ?_, nofun⟩
    obtain ⟨⟨⟩, -, h⟩ := ensure_later h
    cases h
  | true =>
    rw [if_pos rfl]
    constructor
    · intro h
      refine ⟨rfl, ?_⟩
      cases hcoverage : r.game.coverage s m a (.ofParams m.params) with
      | error fault =>
        rw [hcoverage] at h
        obtain rfl : fault = .predicate (.grantFilter id) cause :=
          Stop.fault.inj (Except.error.inj h)
        obtain ⟨grant, cause', hfails, hsame⟩ := coverage_eq_error_iff.1 hcoverage
        obtain ⟨hid, rfl⟩ := Fault.predicate.inj hsame
        exact ⟨grant, (Predicate.grantFilter.inj hid).symm, hfails⟩
      | ok covered =>
        rw [hcoverage] at h
        cases covered <;> cases h
    · rintro ⟨-, grant, rfl, hfails⟩
      rw [coverage_eq_error_iff.2 ⟨grant, cause, hfails, rfl⟩]
      rfl

/-- Resolving a move blames the filter of a grant exactly if the game is not over, its special
activity may accompany it, and that filter fails for it. -/
theorem resolve_eq_filter_iff {id : String} {cause : Fault} (hfree : m.free = true)
    (ha : r.definition.action? m.action = some a) :
    r.resolve s m = .error (.fault (.predicate (.grantFilter id) cause)) ↔
      r.game.outcome? s = .ok none ∧ r.checkCompound s m = .ok () ∧
        ∃ grant : Grant, grant.id = id ∧ grant.FailsFor r s m a cause := by
  constructor
  · intro h
    -- No other stage of a resolution blames a grant.
    have hhost : ¬ Predicate.OfAction r.definition a (.grantFilter id) := nofun
    have hspecial : ¬ r.OfSpecial m (.grantFilter id) := by
      rintro ⟨c, b, -, -, hblamed⟩
      cases hblamed
    obtain ⟨outcome, houtcome, h⟩ := (r.game.outcome?_fails s).check.later h nofun
    obtain ⟨⟨⟩, hgoesOn, h⟩ := ensure_later h
    have hover : outcome = none := Option.isNone_iff_eq_none.1 (ensure_eq_ok hgoesOn)
    rw [ha] at h
    obtain ⟨⟨⟩, hcompound, h⟩ := (r.checkCompound_fails s m).later h hspecial
    rcases bind_eq_error h with h | ⟨grant, -, h⟩
    · obtain ⟨-, hgrant⟩ := checkGrant_eq_filter_iff.1 h
      exact ⟨hover ▸ liftM_eq_ok houtcome, hcompound, hgrant⟩
    · obtain ⟨host, -, h⟩ := (Plan.make_fails r.game s m a m.free false).later h hhost
      obtain ⟨special, -, h⟩ := (r.planCompound_fails s m _).later h hspecial
      have hperform : Fails (Stop.BlamesOnly fun _ => False)
          (r.perform host special { session := { state := s } }) := r.perform_fails host special _
      obtain ⟨x, -, h⟩ := hperform.later h not_false
      cases h
  · rintro ⟨houtcome, hcompound, hgrant⟩
    unfold resolve
    rw [houtcome]
    simp only [ha]
    have hfails : r.checkGrant s m a = .error (.fault (.predicate (.grantFilter id) cause)) :=
      checkGrant_eq_filter_iff.2 ⟨hfree, hgrant⟩
    refine bind_ok (x := none) rfl (bind_ok (x := ()) rfl ?_)
    unfold resolveAs
    rw [hcompound, hfails]
    rfl

/-- The filter of a pending grant finds unbound only what it reads and the move has not selected. -/
theorem lacks_of_failsFor {grant : Grant} {name : String}
    (h : grant.FailsFor r s m a (.unbound name)) :
    (∃ f, grant.zoneFilter = some f ∧ name ∈ f.names) ∧ m.params.get? name = none := by
  obtain ⟨f, hfilter, heval⟩ := h.fails
  obtain ⟨hread, hfree⟩ := ((f.eval_fails _).of_error heval).unbound name rfl
  rw [Bindings.get?_ofParams, Option.map_eq_none_iff] at hfree
  exact ⟨⟨f, hfilter, hread⟩, hfree⟩

/-! ## Params that have not been settled -/

/-- What an action is planned with has a value for each of its declared params. -/
theorem ne_none_of_make {g : Game} {free special : Bool} {plan : Plan}
    (h : Plan.make g s m a free special = .ok plan) {p : Param} (hp : p ∈ a.params) :
    m.params.get? p.name ≠ none := by
  obtain ⟨executor, -, h⟩ := bind_eq_ok h
  obtain ⟨⟨⟩, -, h⟩ := bind_eq_ok h
  obtain ⟨⟨⟩, hchecked, -⟩ := bind_eq_ok h
  obtain ⟨x, hx⟩ := Plan.checkParams_single hchecked p hp
  rw [hx]
  nofun

/-- Suppose that an action declares all that the filters of the pending grants read.  A free
operation that takes it comes to an unbound name in a filter exactly if the filter looks for a
declared param that the move still lacks.  So it cannot be planned either: asked for its params
first, it would not have come so far.  If it is the move from which the action is explored, no list
of legal moves goes past it. -/
theorem filterUnbound_iff (hfree : m.free = true) (ha : r.definition.action? m.action = some a)
    (hdeclared : ∀ grant ∈ s.grants, ∀ f, grant.zoneFilter = some f →
      ∀ name ∈ f.names, ∃ p ∈ a.params, p.name = name) (id name : String) :
    (r.resolve s m = .error (.fault (.predicate (.grantFilter id) (.unbound name))) ↔
      r.game.outcome? s = .ok none ∧ r.checkCompound s m = .ok () ∧
        ∃ (grant : Grant) (p : Param), grant.id = id ∧ p ∈ a.params ∧ p.name = name ∧
          m.params.get? name = none ∧ grant.FailsFor r s m a (.unbound name)) ∧
      (r.resolve s m = .error (.fault (.predicate (.grantFilter id) (.unbound name))) →
        (∀ plan, Plan.make r.game s m a true false ≠ .ok plan) ∧
          (m = r.bareMove s m.action → ∀ cap compounds found,
            r.legalMoves s cap compounds = .ok found → cap ≤ found.length)) := by
  have hlacks : ∀ grant : Grant, grant.FailsFor r s m a (.unbound name) →
      (∃ p ∈ a.params, p.name = name) ∧ m.params.get? name = none := by
    intro grant hfails
    obtain ⟨⟨f, hfilter, hread⟩, hlacks⟩ := lacks_of_failsFor hfails
    exact ⟨hdeclared grant hfails.pending f hfilter name hread, hlacks⟩
  constructor
  · rw [resolve_eq_filter_iff hfree ha]
    constructor
    · rintro ⟨houtcome, hcompound, grant, hid, hfails⟩
      obtain ⟨⟨p, hp, hname⟩, hmissing⟩ := hlacks grant hfails
      exact ⟨houtcome, hcompound, grant, p, hid, hp, hname, hmissing, hfails⟩
    · rintro ⟨houtcome, hcompound, grant, p, hid, -, -, -, hfails⟩
      exact ⟨houtcome, hcompound, grant, hid, hfails⟩
  · intro hfault
    obtain ⟨-, -, grant, -, hfails⟩ := (resolve_eq_filter_iff hfree ha).1 hfault
    obtain ⟨⟨p, hp, hname⟩, hmissing⟩ := hlacks grant hfails
    refine ⟨fun plan hplan => ?_, fun hbare cap compounds found hlist => ?_⟩
    · exact ne_none_of_make hplan hp (hname ▸ hmissing)
    · have hid : a.id = m.action := by simpa using List.find?_some ha
      have hexplored : m ∈ r.bareMoves s := by
        rw [hbare, ← hid]
        exact List.mem_map_of_mem (List.mem_of_find?_eq_some ha)
      exact length_of_legalMoves hexplored hfault hlist

end Rules

/-! ## A passage -/

/-- A game in which the first seat can grant the second a march, but to one place only. -/
def Definition.passage : Definition :=
  { Definition.minimal "passage" with
    order := .cardDriven { seats := [⟨0⟩, ⟨1⟩] }
    actions := [
      { id := "treaty"
        effects := [.grantFreeOperation {
          seat := .id ⟨1⟩
          actions := ["march"]
          zoneFilter := some (.eq (.binding "space") (.str "pass")) }] },
      { id := "march", params := [{ name := "space", domain := .enums ["ford", "pass"] }] }] }

/-- The rules of that game, under the usual limits. -/
def Rules.passage : Rules := { game := .ofDefinition .passage }

/-- Where two seats start that game. -/
def State.passage : State := (Rules.passage.game.start 2 0).toOption.getD default

/-- The state in which the game sets out for the next decision after a treaty: the second seat is
active and holds a grant. -/
def State.allied : State :=
  (((Rules.passage.resolve .passage (.named "treaty")).toOption.bind (fun x =>
    (Rules.passage.carryOut (.named "treaty") State.passage.active x).toOption)).map (fun p =>
      (p.state.afterMove Rules.passage.definition (.named "treaty")).2)).getD default

/-- After a treaty a march that is only begun comes to a fault, so that no move is found for the
second seat, and the treaty itself cannot be made.  With a place to go to, the march is fine. -/
theorem Rules.filterUnbound_passage :
    Rules.passage.resolve .allied (Move.named "march").freely =
        .error (.fault (.predicate (.grantFilter "grant-0") (.unbound "space"))) ∧
      (∀ a plan, Rules.passage.definition.action? "march" = some a →
        Plan.make Rules.passage.game .allied (Move.named "march").freely a true false ≠ .ok plan) ∧
      (∀ cap compounds found,
        Rules.passage.legalMoves .allied cap compounds = .ok found → cap ≤ found.length) ∧
      (∃ f, Rules.passage.makeMove .passage (.named "treaty") = .error (.fault f) ∧
        f.code = "PREDICATE_EVALUATION") ∧
      ∃ x, Rules.passage.resolve .allied
        ((Move.named "march").select "space" (.one (.str "pass"))).freely = .ok x := by
  obtain ⟨a, ha⟩ : ∃ a, Rules.passage.definition.action? "march" = some a := ⟨_, rfl⟩
  have hfault : Rules.passage.resolve .allied (Move.named "march").freely =
      .error (.fault (.predicate (.grantFilter "grant-0") (.unbound "space"))) := by
    with_unfolding_all rfl
  have hread : ∀ grant ∈ State.allied.grants, ∀ f ∈ grant.zoneFilter, ∀ name ∈ f.names,
      name = "space" := by decide +kernel
  have hdeclared : ∀ grant ∈ State.allied.grants, ∀ f, grant.zoneFilter = some f →
      ∀ name ∈ f.names, ∃ p ∈ a.params, p.name = name := by
    intro grant hgrant f hf name hname
    cases ha
    exact ⟨_, List.mem_singleton_self _, (hread grant hgrant f hf name hname).symm⟩
  obtain ⟨hplans, hlists⟩ :=
    (filterUnbound_iff (m := (Move.named "march").freely) rfl ha hdeclared "grant-0" "space").2
      hfault
  have hbare : (Move.named "march").freely = Rules.passage.bareMove .allied "march" := by
    have hwindow : State.allied.order.inGrantWindow = true := by decide +kernel
    unfold Rules.bareMove
    rw [hwindow]
    rfl
  have hmake : Rules.passage.makeMove .passage (.named "treaty") =
      .error (.fault (.predicate (.grantFilter "grant-0") (.unbound "space"))) := by
    with_unfolding_all rfl
  refine ⟨hfault, fun b plan hb => ?_, hlists hbare, ⟨_, hmake, rfl⟩,
    exists_ok_of_isOk (by decide +kernel)⟩
  cases ha.symm.trans hb
  exact hplans plan

end Tabletop
