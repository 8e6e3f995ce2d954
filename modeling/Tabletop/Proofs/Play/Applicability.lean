import Tabletop.Proofs.TurnOrder.Filters
import Tabletop.Proofs.Play.Compound

/-!
# Conditions of pipelines and params that have not been settled

Planning an action settles its declared params before it asks which pipeline applies, so that the
condition of a pipeline finds what it reads.  But the check of a special activity against its host
asks that before anything is planned.  A special activity that is only begun does not come to its
first decision there but to a fault, if the condition reads what has not been decided yet; and a
listing with special activities begins every one of them so.

Main statement: `Rules.applicabilityUnbound_iff`, with an ambush that is possible in one place only.
-/

namespace Tabletop

/-! ## The choice of a pipeline -/

namespace Pipeline

variable {v : View} {action : ActionId} {p : Pipeline} {cause : Fault}

/-- The condition of a pipeline fails when a pipeline is chosen for an action: those before it do
not apply, its window is open, and its condition comes to a fault. -/
structure FailsFor (p : Pipeline) (action : ActionId) (v : View) (cause : Fault) : Prop where
  reached : ∃ before after, v.definition.pipelinesOf action = before ++ p :: after ∧
    ∀ other ∈ before, other.applies v = .ok false
  isOpen : p.isOpen v.state = true
  fails : ∃ f, p.applicability = some f ∧ f.eval v = .error cause

/-- A pipeline that fails for an action is one of its pipelines. -/
theorem FailsFor.mem (h : p.FailsFor action v cause) : p ∈ v.definition.pipelinesOf action := by
  obtain ⟨before, after, hsplit, -⟩ := h.reached
  rw [hsplit]
  exact List.mem_append_right before List.mem_cons_self

/-- A pipeline that fails for an action is declared for it. -/
theorem FailsFor.action_eq (h : p.FailsFor action v cause) : p.action = action := by
  have hp := h.mem
  simp only [Definition.pipelinesOf, List.mem_filter, beq_iff_eq] at hp
  exact hp.2

/-- Whether a pipeline applies cannot be told exactly if its window is open and its condition fails;
the fault names the pipeline. -/
theorem applies_eq_error_iff {fault : Fault} :
    p.applies v = .error fault ↔ p.isOpen v.state = true ∧
      ∃ f cause, p.applicability = some f ∧ f.eval v = .error cause ∧
        fault = .predicate (.applicability p.id) cause := by
  unfold applies
  by_cases hopen : p.isOpen v.state = true
  · rw [if_pos hopen, holdsIn_eq_error_iff]
    simp [hopen]
  · rw [if_neg hopen]
    simp [hopen]

/-- A condition finds unbound only what it reads and the params do not hold. -/
theorem FailsFor.lacks {name : String} (h : p.FailsFor action v (.unbound name))
    {params : Dict Selection} (hv : v.bindings = .ofParams params) :
    (∃ f, p.applicability = some f ∧ name ∈ f.names) ∧ params.get? name = none := by
  obtain ⟨f, hf, heval⟩ := h.fails
  obtain ⟨hread, hfree⟩ := ((f.eval_fails _).of_error heval).unbound name rfl
  rw [hv, Bindings.get?_ofParams, Option.map_eq_none_iff] at hfree
  exact ⟨⟨f, hf, hread⟩, hfree⟩

end Pipeline

/-- The choice of what carries an action out fails exactly if the condition of a pipeline does. -/
theorem dispatchPipeline_eq_error_iff {v : View} {action : ActionId} {fault : Fault} :
    dispatchPipeline action v = .error fault ↔
      ∃ (p : Pipeline) (cause : Fault), p.FailsFor action v cause ∧
        fault = .predicate (.applicability p.id) cause := by
  have hsearch : dispatchPipeline action v = .error fault ↔
      Pipeline.firstApplying? v (v.definition.pipelinesOf action) = .error fault := by
    constructor
    · intro h
      rcases bind_eq_error h with h | ⟨found, -, h⟩
      · exact h
      · cases found <;> cases h
    · intro h
      unfold dispatchPipeline
      simp only [h]
      rfl
  have hcons : ∀ p ps, Pipeline.firstApplying? v (p :: ps) =
      (p.applies v >>= fun passes =>
        if passes then .ok (some p) else Pipeline.firstApplying? v ps) :=
    fun _ _ => rfl
  rw [hsearch, search_eq_error_iff rfl hcons]
  constructor
  · rintro ⟨before, p, after, hsplit, hbefore, hfails⟩
    obtain ⟨hopen, f, cause, hf, heval, rfl⟩ := Pipeline.applies_eq_error_iff.1 hfails
    exact ⟨p, cause, ⟨⟨before, after, hsplit, hbefore⟩, hopen, f, hf, heval⟩, rfl⟩
  · rintro ⟨p, cause, ⟨⟨before, after, hsplit, hbefore⟩, hopen, f, hf, heval⟩, rfl⟩
    exact ⟨before, p, after, hsplit, hbefore,
      Pipeline.applies_eq_error_iff.2 ⟨hopen, f, cause, hf, heval, rfl⟩⟩

/-! ## Before and after params are settled -/

/-- The check of a special activity against its host faults exactly if it may be checked and the
condition of one of its pipelines fails for the active seat. -/
theorem Accompaniment.check_eq_fault_iff {c : Accompaniment Move} {g : Game} {s : State}
    {host : Move} {fault : Fault} :
    c.check g s host = .error (.fault fault) ↔
      c.special.compound = none ∧ (g.definition.action? c.special.action).isSome ∧
        ∃ (p : Pipeline) (cause : Fault),
          p.FailsFor c.special.action (c.view g s s.active) cause ∧
            fault = .predicate (.applicability p.id) cause := by
  rw [← dispatchPipeline_eq_error_iff]
  constructor
  · intro h
    obtain ⟨⟨⟩, halone, h⟩ := ensure_later h
    obtain ⟨⟨⟩, hdeclared, h⟩ := ensure_later h
    refine ⟨Option.isNone_iff_eq_none.1 (ensure_eq_ok halone), ensure_eq_ok hdeclared, ?_⟩
    rcases bind_eq_error h with h | ⟨dispatch, -, h⟩
    · exact liftM_eq_fault h
    · cases dispatch with
      | plain => cases h
      | unmatched => cases h
      | matched p =>
        obtain ⟨⟨⟩, -, h⟩ := ensure_later h
        cases hrule : c.brokenRule? host p with
        | none => simp only [hrule] at h; cases h
        | some rule => simp only [hrule] at h; cases h
  · rintro ⟨halone, hdeclared, hdispatch⟩
    unfold check
    simp only [halone, hdeclared]
    change (liftM (dispatchPipeline c.special.action (c.view g s s.active)) :
      Check Dispatch) >>= _ = _
    rw [hdispatch]
    rfl

/-- An action declares all that the conditions of its pipelines read. -/
def Action.DeclaresReads (d : Definition) (a : Action) : Prop :=
  ∀ p ∈ d.pipelinesOf a.id, ∀ f, p.applicability = some f →
    ∀ name ∈ f.names, ∃ q ∈ a.params, q.name = name

namespace Plan

variable {g : Game} {s : State} {m : Move} {a : Action} {free special : Bool}

/-- A fault that names the condition of a pipeline comes from a pipeline that fails for the
action. -/
theorem checkPipeline_eq_fault {v : View} {id : PipelineId} {cause : Fault}
    (h : checkPipeline a free v = .error (.fault (.predicate (.applicability id) cause))) :
    ∃ p : Pipeline, p.id = id ∧ p.FailsFor a.id v cause := by
  rcases bind_eq_error h with h | ⟨dispatch, -, h⟩
  · obtain ⟨p, cause', hfails, hsame⟩ := dispatchPipeline_eq_error_iff.1 (liftM_eq_fault h)
    obtain ⟨hid, rfl⟩ := Fault.predicate.inj hsame
    exact ⟨p, (Predicate.applicability.inj hid).symm, hfails⟩
  · cases dispatch with
    | plain => cases h
    | unmatched => cases h
    | matched p =>
      -- How the action is paid for is another question.
      have hpayment : Fails
        (Fault.BlamesOnly fun name => name = .legality p.id ∨ name = .costCheck p.id)
          (p.payment free v) := p.payment_fails (.inl rfl) (.inr rfl) free
      have hother : ¬ (Predicate.applicability id = .legality p.id ∨
          Predicate.applicability id = .costCheck p.id) := by simp
      obtain ⟨payment, -, h⟩ := hpayment.check.later h hother
      cases payment <;> cases h

/-- A plan asks which pipeline applies only once every declared param is settled. -/
theorem settled_of_make {id : PipelineId} {cause : Fault}
    (h : make g s m a free special = .error (.fault (.predicate (.applicability id) cause))) :
    (∀ q ∈ a.params, m.params.get? q.name ≠ none) ∧
      ∃ (executor : Seat) (p : Pipeline), p.id = id ∧ p.FailsFor a.id
        { game := g, state := s, bindings := .ofParams m.params, actor := executor } cause := by
  have hparams : ¬ Predicate.OfParams a (.applicability id) := nofun
  obtain ⟨executor, -, h⟩ := checkSeats_fails.later h hparams
  have havailable : Fails (Stop.BlamesOnly fun _ => False) (checkAvailable a s) :=
    checkAvailable_fails s
  obtain ⟨⟨⟩, -, h⟩ := havailable.later h not_false
  obtain ⟨⟨⟩, hchecked, h⟩ := (checkParams_fails (List.Subset.refl _)).later h hparams
  have hcondition : Fails (Fault.BlamesOnly fun name => name = .precondition a.id)
      (holdsIn (.precondition a.id) a.pre
        { game := g, state := s, bindings := .ofParams m.params, actor := executor }) :=
    holdsIn_fails (by rfl) a.pre _
  obtain ⟨holds, -, h⟩ := hcondition.check.later h (by simp [Stop.BlamesOnly, Fault.BlamesOnly])
  obtain ⟨⟨⟩, -, h⟩ := ensure_later h
  rcases bind_eq_error h with h | ⟨chosen, -, h⟩
  · refine ⟨fun q hq => ?_, executor, checkPipeline_eq_fault h⟩
    obtain ⟨x, hx⟩ := checkParams_single hchecked q hq
    rw [hx]
    nofun
  · cases h

/-- A plan for an action that declares what its conditions read finds everything there. -/
theorem make_ne_unbound (hdeclared : a.DeclaresReads g.definition) (id : PipelineId)
    (name : String) :
    make g s m a free special ≠
      .error (.fault (.predicate (.applicability id) (.unbound name))) := by
  intro h
  obtain ⟨hsettled, executor, p, -, hfails⟩ := settled_of_make h
  obtain ⟨⟨f, hf, hread⟩, hlacks⟩ := hfails.lacks rfl
  obtain ⟨q, hq, rfl⟩ := hdeclared p hfails.mem f hf name hread
  exact hsettled q hq hlacks

end Plan

namespace Rules

variable {r : Rules} {s : State} {m : Move} {c : Accompaniment Move} {b : Action}

/-- A special activity that cannot be planned for a fault has come to that fault in its own plan. -/
theorem planCompound_eq_fault {stages : Nat} {fault : Fault}
    (h : r.planCompound s m stages = .error (.fault fault)) :
    ∃ c b, m.compound = some c ∧ c.checkTiming stages m.action = .ok () ∧
      r.definition.action? c.special.action = some b ∧
      Plan.make r.game s c.special b m.free true = .error (.fault fault) := by
  unfold planCompound at h
  cases hc : m.compound with
  | none => rw [hc] at h; cases h
  | some c =>
    have htiming : Fails (fun e => ∀ f, e ≠ Stop.fault f) (c.checkTiming stages m.action) := by
      unfold Accompaniment.checkTiming
      split
      · exact .ite (fun _ => trivial) (fun _ => nofun)
      · exact fun _ => nofun
      · exact fun _ => nofun
      · trivial
    rw [hc] at h
    rcases bind_eq_error h with h | ⟨special, -, h⟩
    · obtain ⟨⟨⟩, hlawful, h⟩ := htiming.later h (fun hno => hno fault rfl)
      cases hb : r.definition.action? c.special.action with
      | none => rw [hb] at h; cases h
      | some b =>
        rw [hb] at h
        rcases bind_eq_error h with h | ⟨plan, -, h⟩
        · exact ⟨c, b, rfl, hlawful, hb, h⟩
        · cases h
    · cases h

/-- Of all the stages of resolving a move only the check of its special activity comes to an unbound
name in the condition of a pipeline of the special activity. -/
theorem resolve_eq_unbound_iff (hc : m.compound = some c)
    (hb : r.definition.action? c.special.action = some b) (hdeclared : b.DeclaresReads r.definition)
    {id : PipelineId} {name : String}
    (hid : ∀ p ∈ r.definition.pipelines, p.id = id → p.action = c.special.action) :
    r.resolve s m = .error (.fault (.predicate (.applicability id) (.unbound name))) ↔
      r.game.outcome? s = .ok none ∧ (r.definition.action? m.action).isSome ∧
        c.check r.game s m = .error (.fault (.predicate (.applicability id) (.unbound name))) := by
  constructor
  · intro h
    obtain ⟨outcome, houtcome, h⟩ := (r.game.outcome?_fails s).check.later h nofun
    obtain ⟨⟨⟩, hgoesOn, h⟩ := ensure_later h
    have hover : outcome = none := Option.isNone_iff_eq_none.1 (ensure_eq_ok hgoesOn)
    refine ⟨hover ▸ liftM_eq_ok houtcome, ?_⟩
    cases ha : r.definition.action? m.action with
    | none =>
      rw [ha] at h
      cases h
    | some a =>
      rw [ha] at h
      refine ⟨rfl, ?_⟩
      rcases bind_eq_error h with h | ⟨⟨⟩, -, h⟩
      · unfold checkCompound at h
        rw [hc] at h
        exact h
      · exfalso
        obtain ⟨grant, -, h⟩ := (r.checkGrant_fails s m a).later h (by rintro ⟨_, ⟨⟩⟩)
        rcases bind_eq_error h with h | ⟨host, -, h⟩
        · -- If the host has such a pipeline, it is the same action.
          obtain ⟨-, executor, p, hp, hfails⟩ := Plan.settled_of_make h
          have hmember : p ∈ r.definition.pipelines := (List.mem_filter.1 hfails.mem).1
          have hactions : a.id = c.special.action := hfails.action_eq.symm.trans (hid p hmember hp)
          have hhost : a.id = m.action := by simpa using List.find?_some ha
          rw [← hhost, hactions, hb] at ha
          cases ha
          exact Plan.make_ne_unbound hdeclared id name h
        · rcases bind_eq_error h with h | ⟨special, -, h⟩
          · obtain ⟨c', b', hc', -, hb', hmake⟩ := planCompound_eq_fault h
            cases hc.symm.trans hc'
            cases hb.symm.trans hb'
            exact Plan.make_ne_unbound hdeclared id name hmake
          · have hperform : Fails (Stop.BlamesOnly fun _ => False)
                (r.perform host special { session := { state := s } }) :=
                  r.perform_fails host special _
            obtain ⟨x, -, h⟩ := hperform.later h not_false
            cases h
  · rintro ⟨houtcome, hdeclares, hfails⟩
    obtain ⟨a, ha⟩ := Option.isSome_iff_exists.1 hdeclares
    unfold resolve
    rw [houtcome]
    simp only [ha]
    refine bind_ok (x := none) rfl (bind_ok (x := ()) rfl ?_)
    unfold resolveAs checkCompound
    rw [hc]
    simp only [hfails]
    rfl

/-- Suppose that a special activity declares all that the conditions of its pipelines read.  A move
that it accompanies comes to an unbound name in such a condition exactly if the check against the
host looks for a declared param that the special activity still lacks, for the active seat.  Planned
first, it would never come to that; as it is, it cannot be planned.  If it is one of the moves from
which special activities are explored for a host that has been found, no list of legal moves goes
past it. -/
theorem applicabilityUnbound_iff (hc : m.compound = some c)
    (hb : r.definition.action? c.special.action = some b) (hdeclared : b.DeclaresReads r.definition)
    (id : PipelineId) (name : String)
    (hid : ∀ p ∈ r.definition.pipelines, p.id = id → p.action = c.special.action) :
    (r.resolve s m = .error (.fault (.predicate (.applicability id) (.unbound name))) ↔
      r.game.outcome? s = .ok none ∧ (r.definition.action? m.action).isSome ∧
        c.special.compound = none ∧
        ∃ (p : Pipeline) (q : Param), p.id = id ∧ q ∈ b.params ∧ q.name = name ∧
          c.special.params.get? name = none ∧
          p.FailsFor c.special.action (c.view r.game s s.active) (.unbound name)) ∧
      Plan.make r.game s c.special b m.free true ≠
        .error (.fault (.predicate (.applicability id) (.unbound name))) ∧
      (r.resolve s m = .error (.fault (.predicate (.applicability id) (.unbound name))) →
        (∀ plan, Plan.make r.game s c.special b m.free true ≠ .ok plan) ∧
          ∀ cap hosts host, r.legalMoves s cap false = .ok hosts → host ∈ hosts →
            m ∈ r.compoundsOf host → ∀ found, r.legalMoves s cap true = .ok found →
              cap ≤ found.length) := by
  have hspecial : b.id = c.special.action := by simpa using List.find?_some hb
  have hlacks : ∀ p : Pipeline,
      p.FailsFor c.special.action (c.view r.game s s.active) (.unbound name) →
      (∃ q ∈ b.params, q.name = name) ∧ c.special.params.get? name = none := by
    intro p hfails
    obtain ⟨⟨f, hf, hread⟩, hlacks⟩ := hfails.lacks rfl
    exact ⟨hdeclared p (hspecial ▸ hfails.mem) f hf name hread, hlacks⟩
  have hfault : r.resolve s m = .error (.fault (.predicate (.applicability id) (.unbound name))) ↔
      r.game.outcome? s = .ok none ∧ (r.definition.action? m.action).isSome ∧
        c.special.compound = none ∧
        ∃ (p : Pipeline) (q : Param), p.id = id ∧ q ∈ b.params ∧ q.name = name ∧
          c.special.params.get? name = none ∧
          p.FailsFor c.special.action (c.view r.game s s.active) (.unbound name) := by
    rw [resolve_eq_unbound_iff hc hb hdeclared hid, Accompaniment.check_eq_fault_iff]
    constructor
    · rintro ⟨houtcome, hhost, halone, -, p, cause, hfails, hsame⟩
      obtain ⟨hp, rfl⟩ := Fault.predicate.inj hsame
      obtain ⟨⟨q, hq, hname⟩, hmissing⟩ := hlacks p hfails
      exact ⟨houtcome, hhost, halone, p, q, (Predicate.applicability.inj hp).symm, hq, hname,
        hmissing, hfails⟩
    · rintro ⟨houtcome, hhost, halone, p, q, rfl, -, -, -, hfails⟩
      exact ⟨houtcome, hhost, halone, Option.isSome_of_eq_some hb, p, _, hfails, rfl⟩
  refine ⟨hfault, Plan.make_ne_unbound hdeclared id name, fun h => ⟨fun plan hplan => ?_, ?_⟩⟩
  · obtain ⟨-, -, -, p, q, -, hq, rfl, hmissing, -⟩ := hfault.1 h
    exact ne_none_of_make hplan hq hmissing
  · intro cap hosts host hhosts hhost hm found hfound
    exact length_of_legalMoves_compound hhosts hhost hm h hfound

end Rules

/-! ## A thicket -/

/-- A game in which an ambush, which may accompany a march, is possible in the woods only. -/
def Definition.thicket : Definition :=
  { Definition.minimal "thicket" with
    actions := [
      { id := "march" },
      { id := "ambush", params := [{ name := "site", domain := .enums ["woods"] }] }]
    pipelines := [
      { id := "hidden", action := "ambush"
        applicability := some (.eq (.binding "site") (.str "woods"))
        accompanies := some ["march"] }] }

/-- The rules of that game, under the usual limits. -/
def Rules.thicket : Rules := { game := .ofDefinition .thicket }

/-- Where two seats start that game. -/
def State.thicket : State := (Rules.thicket.game.start 2 0).toOption.getD default

/-- A march with an ambush that comes first, as a listing begins it. -/
def Move.thicket : Move := (Move.named "march").accompaniedBy (.named "ambush") .before none

/-- A march with an ambush that is only begun comes to a fault.  The march is among the legal moves,
but no list of moves with special activities goes past it.  With a site, the ambush is fine. -/
theorem Rules.applicabilityUnbound_thicket :
    Rules.thicket.resolve .thicket .thicket =
        .error (.fault (.predicate (.applicability "hidden") (.unbound "site"))) ∧
      (∀ b plan, Rules.thicket.definition.action? "ambush" = some b →
        Plan.make Rules.thicket.game .thicket (.named "ambush") b false true ≠ .ok plan) ∧
      (∃ hosts, Rules.thicket.legalMoves .thicket 100 false = .ok hosts ∧ .named "march" ∈ hosts) ∧
      (∀ found, Rules.thicket.legalMoves .thicket 100 true = .ok found → 100 ≤ found.length) ∧
      ∃ x, Rules.thicket.resolve .thicket ((Move.named "march").accompaniedBy
        ((Move.named "ambush").select "site" (.one (.str "woods"))) .before none) = .ok x := by
  obtain ⟨b, hb⟩ : ∃ b, Rules.thicket.definition.action? "ambush" = some b := ⟨_, rfl⟩
  have hfault : Rules.thicket.resolve .thicket .thicket =
      .error (.fault (.predicate (.applicability "hidden") (.unbound "site"))) := by rfl
  have hread : ∀ p ∈ Rules.thicket.definition.pipelinesOf "ambush", ∀ f ∈ p.applicability,
      ∀ name ∈ f.names, name = "site" := by decide +kernel
  have hdeclared : b.DeclaresReads Rules.thicket.definition := by
    cases hb
    intro p hp f hf name hname
    exact ⟨_, List.mem_singleton_self _, (hread p hp f hf name hname).symm⟩
  have hid : ∀ p ∈ Rules.thicket.definition.pipelines, p.id = "hidden" → p.action = "ambush" := by
    decide +kernel
  obtain ⟨-, -, hstuck⟩ := applicabilityUnbound_iff
    (show Move.thicket.compound = some { special := .named "ambush", timing := .before } from rfl)
    hb hdeclared "hidden" "site" hid
  obtain ⟨hplans, hlists⟩ := hstuck hfault
  obtain ⟨hosts, hhosts⟩ : ∃ hosts, Rules.thicket.legalMoves .thicket 100 false = .ok hosts :=
    exists_ok_of_isOk (by decide +kernel)
  have hmarch : Move.named "march" ∈ hosts := by
    have hfirst : ((Rules.thicket.legalMoves .thicket 100 false).toOption.bind List.head?).map
        (fun m => (m.action, m.params, m.free, m.classOverride, m.compound.isNone)) =
          some ("march", ∅, false, none, true) := by decide +kernel
    rw [hhosts] at hfirst
    obtain ⟨host, hhead, hfields⟩ := Option.map_eq_some_iff.1 hfirst
    simp only [Prod.mk.injEq, Option.isNone_iff_eq_none] at hfields
    obtain ⟨haction, hparams, hfree, hclass, hcompound⟩ := hfields
    cases host
    subst haction hparams hfree hclass hcompound
    exact List.mem_of_mem_head? hhead
  have haccompanies : "ambush" ∈ Rules.thicket.specialsOf "march" := by decide +kernel
  have hexplored : Move.thicket ∈ Rules.thicket.compoundsOf (.named "march") :=
    List.mem_flatMap.2 ⟨"ambush", haccompanies,
      List.mem_map.2 ⟨(.before, none), by simp [Rules.timings], rfl⟩⟩
  refine ⟨hfault, fun b' plan hb' => ?_, ⟨hosts, hhosts, hmarch⟩, fun found hfound => ?_,
    exists_ok_of_isOk (by decide +kernel)⟩
  · cases hb.symm.trans hb'
    exact hplans plan
  · exact hlists 100 hosts _ hhosts hmarch hexplored found hfound

end Tabletop
