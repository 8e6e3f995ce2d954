import Tabletop.Proofs.Effect.Faults
import Tabletop.Proofs.Play.Undecided

/-!
# Which predicate a move blames

A fault that says in which predicate of the definition it arose blames one that was evaluated: one
of those that end the game, or one of those of an action that is planned.  Effects blame none.  A
selector is blamed by the check of seats alone.  So what a fault blames tells how far a move has
come.

Main statements: `Game.outcome?_fails`, `Plan.make_fails` and `Rules.perform_fails`, and
`Rules.checkCompound_fails` and `Rules.planCompound_fails` for special activities.
-/

namespace Tabletop

/-- The predicates that are evaluated to tell whether a game is over. -/
inductive Predicate.OfEnd : Predicate → Prop
  | endCondition (index : Nat) : OfEnd (.endCondition index)
  | checkpoint (id : String) : OfEnd (.checkpoint id)
  | margin (seat : Seat) : OfEnd (.margin seat)

/-- The predicates that are evaluated to plan an action. -/
inductive Predicate.OfAction (d : Definition) (a : Action) : Predicate → Prop
  | paramDomain {p : Param} (hp : p ∈ a.params) : OfAction d a (.paramDomain p.name)
  | precondition : OfAction d a (.precondition a.id)
  | applicability {p : Pipeline} (hp : p ∈ d.pipelinesOf a.id) : OfAction d a (.applicability p.id)
  | legality {p : Pipeline} (hp : p ∈ d.pipelinesOf a.id) : OfAction d a (.legality p.id)
  | costCheck {p : Pipeline} (hp : p ∈ d.pipelinesOf a.id) : OfAction d a (.costCheck p.id)

/-- The predicates that are evaluated to settle the declared params of an action. -/
inductive Predicate.OfParams (a : Action) : Predicate → Prop
  | paramDomain {p : Param} (hp : p ∈ a.params) : OfParams a (.paramDomain p.name)

/-- A predicate that is evaluated for the declared params is one that is evaluated for the
action. -/
theorem Predicate.OfParams.ofAction {d : Definition} {a : Action} {name : Predicate}
    (h : OfParams a name) : OfAction d a name := by
  cases h with
  | paramDomain hp => exact .paramDomain hp

/-- A fault that blames one of some predicates, if it blames any. -/
def Fault.Blames (labels : Predicate → Prop) : Fault → Prop
  | .predicate name _ => labels name
  | _ => True

/-- A stop that blames one of some predicates, if it blames any. -/
def Stop.Blames (labels : Predicate → Prop) : Stop → Prop
  | .fault f => f.Blames labels
  | .pending _ => True
  | .refused _ => True

/-- A fault that blames no selector, and one of some predicates if it blames any. -/
def Fault.BlamesOnly (labels : Predicate → Prop) : Fault → Prop
  | .predicate name _ => labels name
  | .selector .. => False
  | _ => True

/-- A stop that blames no selector, and one of some predicates if it blames any. -/
def Stop.BlamesOnly (labels : Predicate → Prop) : Stop → Prop
  | .fault f => f.BlamesOnly labels
  | .pending _ => True
  | .refused _ => True

section

variable {labels labels' : Predicate → Prop} {α β : Type}

/-- A plain fault blames neither a selector nor a predicate. -/
theorem Fault.Plain.blamesOnly {f : Fault} (h : f.Plain) : f.BlamesOnly labels := by
  cases f <;> trivial

/-- A fault that blames one of some predicates blames one of more. -/
theorem Fault.Blames.mono {f : Fault} (h : f.Blames labels) (hsub : ∀ p, labels p → labels' p) :
    f.Blames labels' := by
  cases f <;> first | trivial | exact hsub _ h

/-- A stop that blames one of some predicates blames one of more. -/
theorem Stop.Blames.mono {e : Stop} (h : e.Blames labels) (hsub : ∀ p, labels p → labels' p) :
    e.Blames labels' := by
  cases e with
  | fault f => exact Fault.Blames.mono h hsub
  | pending q => trivial
  | refused rejection => trivial

/-- A fault that blames only some predicates blames only more. -/
theorem Fault.BlamesOnly.mono {f : Fault} (h : f.BlamesOnly labels)
    (hsub : ∀ p, labels p → labels' p) :
    f.BlamesOnly labels' := by
  cases f <;> first | trivial | exact hsub _ h

/-- A stop that blames only some predicates blames only more. -/
theorem Stop.BlamesOnly.mono {e : Stop} (h : e.BlamesOnly labels)
    (hsub : ∀ p, labels p → labels' p) :
    e.BlamesOnly labels' := by
  cases e with
  | fault f => exact Fault.BlamesOnly.mono h hsub
  | pending q => trivial
  | refused rejection => trivial

/-- A stop that blames no selector blames one of the predicates if it blames any. -/
theorem Stop.BlamesOnly.blames {e : Stop} (h : e.BlamesOnly labels) : e.Blames labels := by
  cases e with
  | fault f => cases f <;> trivial
  | pending q => trivial
  | refused rejection => trivial

namespace Fails

/-- A check that blames some predicates may be said to blame more. -/
theorem widen {a : Check α} (h : Fails (Stop.Blames labels) a) (hsub : ∀ p, labels p → labels' p) :
    Fails (Stop.Blames labels') a :=
  h.mono (fun _ he => he.mono hsub)

/-- A check that blames only some predicates may be said to blame only more. -/
theorem relabel {a : Check α} (h : Fails (Stop.BlamesOnly labels) a)
    (hsub : ∀ p, labels p → labels' p) : Fails (Stop.BlamesOnly labels') a :=
  h.mono (fun _ he => he.mono hsub)

/-- A check that blames no selector fails as one that may. -/
theorem blames {a : Check α} (h : Fails (Stop.BlamesOnly labels) a) :
    Fails (Stop.Blames labels) a :=
  h.mono (fun _ he => he.blames)

/-- An evaluation blames nothing. -/
theorem blamesNothing {v : View} {names : List String} {a : Result α}
    (h : Fails (v.Faults names) a) :
    Fails (Fault.BlamesOnly labels) a :=
  h.plain.mono (fun _ => Fault.Plain.blamesOnly)

/-- A computation for a predicate blames that predicate. -/
theorem inPredicate {name : Predicate} (hname : labels name) (a : Result α) :
    Fails (Fault.BlamesOnly labels) (inPredicate name a) := by
  cases a with
  | ok x => trivial
  | error f => exact hname

/-- An evaluation blames the same when a check is made of it. -/
theorem check {a : Result α} (h : Fails (Fault.BlamesOnly labels) a) :
    Fails (Stop.BlamesOnly labels) (liftM a : Check α) :=
  h.mapError (fun _ hf => hf)

/-- A check that refuses blames nothing. -/
theorem ensure (holds : Bool) (refusal : Refusal) (action : ActionId) :
    Fails (Stop.BlamesOnly labels) (ensure holds refusal action) :=
  .ite (fun _ => trivial) (fun _ => trivial)

/-- What checks something first goes on to blame what comes next. -/
theorem ensureBind {holds : Bool} {refusal : Refusal} {action : ActionId} {f : Unit → Check β}
    (h : Fails (Stop.BlamesOnly labels) (f ())) :
    Fails (Stop.BlamesOnly labels) (Tabletop.ensure holds refusal action >>= f) :=
  (ensure _ _ _).bind (fun _ _ => h)

end Fails

/-- What is ensured does not fault. -/
theorem ensure_later {holds : Bool} {refusal : Refusal} {action : ActionId} {f : Unit → Check β}
    {fault : Fault} (h : ensure holds refusal action >>= f = .error (.fault fault)) :
    ∃ x, ensure holds refusal action = .ok x ∧ f x = .error (.fault fault) := by
  cases holds with
  | true => exact ⟨(), rfl, h⟩
  | false => cases h

end

/-- A check that fails with a fault has it from the evaluation. -/
theorem liftM_eq_fault {α : Type} {a : Result α} {fault : Fault}
    (h : (liftM a : Check α) = .error (.fault fault)) : a = .error fault := by
  cases a with
  | error f =>
    cases h
    rfl
  | ok x => cases h

/-- The test of a predicate blames that predicate. -/
theorem holdsIn_fails {labels : Predicate → Prop} {name : Predicate} (hname : labels name)
    (condition : Option Cond) (v : View) :
    Fails (Fault.BlamesOnly labels) (holdsIn name condition v) := by
  cases condition with
  | none => trivial
  | some c => exact .inPredicate hname (c.eval v)

/-! ## Searches -/

/-- A computation for a predicate fails exactly as the computation does, and the fault names the
predicate. -/
theorem inPredicate_eq_error_iff {α : Type} {name : Predicate} {a : Result α} {f : Fault} :
    inPredicate name a = .error f ↔ ∃ cause, a = .error cause ∧ f = .predicate name cause := by
  cases a with
  | ok x => exact ⟨nofun, nofun⟩
  | error cause =>
    constructor
    · intro h
      exact ⟨cause, rfl, (Except.error.inj h).symm⟩
    · rintro ⟨cause', hcause, rfl⟩
      obtain rfl := Except.error.inj hcause
      rfl

/-- A condition that is evaluated for a predicate fails exactly if it is there and comes to a
fault. -/
theorem holdsIn_eq_error_iff {name : Predicate} {condition : Option Cond} {v : View} {f : Fault} :
    holdsIn name condition v = .error f ↔
      ∃ c cause, condition = some c ∧ c.eval v = .error cause ∧ f = .predicate name cause := by
  cases condition with
  | none => exact ⟨nofun, nofun⟩
  | some c =>
    constructor
    · intro h
      obtain ⟨cause, heval, rfl⟩ := inPredicate_eq_error_iff.1 h
      exact ⟨c, cause, rfl, heval, rfl⟩
    · rintro ⟨_, cause, ⟨⟩, heval, rfl⟩
      exact inPredicate_eq_error_iff.2 ⟨cause, heval, rfl⟩

/-- A search for the first item that passes a test fails exactly if the test fails for an item and
those before it have not passed. -/
theorem search_eq_error_iff {α : Type} {test : α → Result Bool}
    {search : List α → Result (Option α)} (hnil : search [] = .ok none)
    (hcons : ∀ x xs, search (x :: xs) =
      (test x >>= fun passes => if passes then .ok (some x) else search xs))
    {xs : List α} {fault : Fault} :
    search xs = .error fault ↔
      ∃ before x after, xs = before ++ x :: after ∧ (∀ y ∈ before, test y = .ok false) ∧
        test x = .error fault := by
  induction xs with
  | nil => simp [hnil]
  | cons x xs ih =>
    rw [hcons]
    constructor
    · intro h
      rcases bind_eq_error h with hfails | ⟨passes, hpasses, h⟩
      · exact ⟨[], x, xs, rfl, nofun, hfails⟩
      · cases passes with
        | true => cases h
        | false =>
          obtain ⟨before, y, after, rfl, hbefore, hfails⟩ := ih.1 h
          exact ⟨x :: before, y, after, rfl, List.forall_mem_cons.2 ⟨hpasses, hbefore⟩, hfails⟩
    · rintro ⟨before, y, after, hsplit, hbefore, hfails⟩
      cases before with
      | nil =>
        obtain ⟨rfl, rfl⟩ := List.cons.inj hsplit
        rw [hfails]
        rfl
      | cons z before =>
        obtain ⟨rfl, rfl⟩ := List.cons.inj hsplit
        obtain ⟨hpassed, hbefore⟩ := List.forall_mem_cons.1 hbefore
        exact bind_ok hpassed (ih.2 ⟨before, y, after, rfl, hbefore, hfails⟩)

/-! ## The end of the game -/

section

variable {labels : Predicate → Prop} (v : View)

/-- Computing scores blames no predicate. -/
theorem Ending.scores_fails (value : Expr) :
    ∀ seats, Fails (Fault.BlamesOnly labels) (Ending.scores value v seats)
  | [] => trivial
  | _ :: seats =>
    (value.evalInt_fails _).blamesNothing.bind (fun _ _ =>
      (Ending.scores_fails value seats).bind (fun _ _ => .pure))

/-- What an ending declares blames no predicate. -/
theorem Ending.outcome_fails (e : Ending) : Fails (Fault.BlamesOnly labels) (e.outcome v) := by
  cases e with
  | draw => trivial
  | lossAll => trivial
  | win seat => exact (seat.resolve_fails v).blamesNothing.bind (fun _ _ => .pure)
  | score value ascending => exact (Ending.scores_fails v value _).bind (fun _ _ => .pure)

/-- Finding the first end condition that holds blames predicates of the end only. -/
theorem EndCondition.firstOutcome?_fails :
    ∀ (i : Nat) (es : List EndCondition),
      Fails (Fault.BlamesOnly Predicate.OfEnd) (EndCondition.firstOutcome? v i es)
  | _, [] => trivial
  | i, e :: es => by
    rw [EndCondition.firstOutcome?]
    refine (Fails.inPredicate (.endCondition i) _).bind (fun holds _ => ?_)
    cases holds with
    | true => exact (e.result.outcome_fails v).bind (fun _ _ => .pure)
    | false => exact EndCondition.firstOutcome?_fails (i + 1) es

/-- Computing the margins of a victory blames predicates of the end only. -/
theorem Victory.marginScores_fails :
    ∀ ms, Fails (Fault.BlamesOnly Predicate.OfEnd) (Victory.marginScores v ms)
  | [] => trivial
  | m :: ms =>
    (Fails.inPredicate (.margin m.seat) _).bind (fun _ _ =>
      (Victory.marginScores_fails ms).bind (fun _ _ => .pure))

/-- Finding the first checkpoint that holds blames predicates of the end only. -/
theorem Victory.firstOutcome?_fails (y : Victory) :
    ∀ cs, Fails (Fault.BlamesOnly Predicate.OfEnd) (y.firstOutcome? v cs)
  | [] => trivial
  | c :: cs => by
    rw [Victory.firstOutcome?]
    refine (Fails.inPredicate (.checkpoint c.id) _).bind (fun holds _ => ?_)
    cases holds with
    | true => exact (Victory.marginScores_fails v y.margins).bind (fun _ _ => .pure)
    | false => exact Victory.firstOutcome?_fails y cs

end

/-- Whether a game is over depends on nothing but the conditions for that. -/
theorem Game.outcome?_fails (g : Game) (s : State) :
    Fails (Fault.BlamesOnly Predicate.OfEnd) (g.outcome? s) := by
  unfold Game.outcome?
  refine (EndCondition.firstOutcome?_fails _ 0 _).bind (fun outcome _ => ?_)
  cases outcome with
  | some outcome => exact .pure
  | none =>
    dsimp only
    split
    · exact Victory.firstOutcome?_fails _ _ _
    · exact .pure

/-! ## Pipelines -/

section

variable {v : View} {a : Action}

/-- Finding the first pipeline that applies blames predicates of the action only. -/
theorem Pipeline.firstApplying?_fails :
    ∀ {ps : List Pipeline}, ps ⊆ v.definition.pipelinesOf a.id →
      Fails (Fault.BlamesOnly (Predicate.OfAction v.definition a)) (Pipeline.firstApplying? v ps)
  | [], _ => trivial
  | p :: ps, h => by
    obtain ⟨hp, hps⟩ := List.cons_subset.1 h
    have happlies : Fails (Fault.BlamesOnly (Predicate.OfAction v.definition a)) (p.applies v) :=
      .ite (fun _ => holdsIn_fails (.applicability hp) _ v) (fun _ => trivial)
    rw [Pipeline.firstApplying?]
    refine happlies.bind (fun applies _ => ?_)
    cases applies with
    | true => exact .pure
    | false => exact Pipeline.firstApplying?_fails hps

/-- Finding what carries an action out blames predicates of the action only. -/
theorem dispatchPipeline_fails :
    Fails (Fault.BlamesOnly (Predicate.OfAction v.definition a)) (dispatchPipeline a.id v) := by
  unfold dispatchPipeline
  refine (Pipeline.firstApplying?_fails (List.Subset.refl _)).bind (fun found _ => ?_)
  cases found <;> exact .pure

/-- The payment of a pipeline blames its legality or its cost check. -/
theorem Pipeline.payment_fails {labels : Predicate → Prop} {p : Pipeline}
    (hlegality : labels (.legality p.id)) (hcost : labels (.costCheck p.id)) (free : Bool) :
    Fails (Fault.BlamesOnly labels) (p.payment free v) := by
  unfold Pipeline.payment
  refine (holdsIn_fails hlegality _ v).bind (fun legal _ => ?_)
  refine .ite (fun _ => .ite (fun _ => .pure) (fun _ => ?_)) (fun _ => .pure)
  refine (holdsIn_fails hcost _ v).bind (fun payable _ => ?_)
  refine .ite (fun _ => .pure) (fun _ => ?_)
  cases p.costRule <;> exact .pure

end

/-! ## Planning -/

namespace Plan

variable {m : Move} {special : Bool} {v : View} {a : Action}

/-- The domain of a declared param blames predicates of the params only. -/
theorem domain_fails {p : Param} (hp : p ∈ a.params) :
    Fails (Stop.BlamesOnly (Predicate.OfParams a)) (liftM (domain p v) : Check (List Value)) :=
  (Fails.inPredicate (.paramDomain hp) _).check

/-- The check of a param that a selector reads blames predicates of the params only. -/
theorem checkSelected_fails (sel : SeatSelector) :
    Fails (Stop.BlamesOnly (Predicate.OfParams a)) (checkSelected a m special v sel) := by
  unfold checkSelected
  split
  · rename_i name
    cases hp : a.param? name with
    | none => trivial
    | some p =>
      refine (domain_fails (List.mem_of_find?_eq_some hp)).bind (fun values _ => ?_)
      cases m.params.get? name with
      | none => trivial
      | some chosen =>
        dsimp only
        split <;> trivial
  · trivial

/-- The check of declared params blames predicates of the params only. -/
theorem checkParams_fails :
    ∀ {ps : List Param}, ps ⊆ a.params →
      Fails (Stop.BlamesOnly (Predicate.OfParams a)) (checkParams a m special v ps)
  | [], _ => trivial
  | p :: ps, h => by
    obtain ⟨hp, hps⟩ := List.cons_subset.1 h
    rw [checkParams]
    refine (domain_fails hp).bind (fun values _ => ?_)
    cases m.params.get? p.name with
    | none => trivial
    | some chosen =>
      cases chosen with
      | many xs => trivial
      | one x => exact .ite (fun _ => checkParams_fails hps) (fun _ => trivial)

/-- Finding actors and executor blames a selector, or predicates of the params. -/
theorem checkSeats_fails :
    Fails (Stop.Blames (Predicate.OfParams a)) (checkSeats a m special v) := by
  have hresolve : ∀ sel : SeatSelector,
      Fails (Fault.Blames (Predicate.OfParams a))
        (sel.resolve a.id v.state.active v.state.seatCount v.bindings) := by
    intro sel
    unfold SeatSelector.resolve
    split <;> trivial
  have hlift {α : Type} {x : Result α} (hx : Fails (Fault.Blames (Predicate.OfParams a)) x) :
      Fails (Stop.Blames (Predicate.OfParams a)) (liftM x : Check α) := hx.mapError (fun _ hf => hf)
  refine (checkSelected_fails _).blames.bind (fun _ _ => ?_)
  refine (checkSelected_fails _).blames.bind (fun _ _ => ?_)
  refine (hlift (hresolve _)).bind (fun actors _ => ?_)
  refine Fails.bind (hlift ?_) (fun executor _ => Fails.blames (.ensureBind .pure))
  refine (hresolve _).bind (fun seats _ => ?_)
  split <;> trivial

/-- Whether an action is available is told without blame. -/
theorem checkAvailable_fails {labels : Predicate → Prop} (s : State) :
    Fails (Stop.BlamesOnly labels) (checkAvailable a s) := by
  refine .ensureBind ?_
  split <;> trivial

/-- The check of a pipeline blames predicates of the action only. -/
theorem checkPipeline_fails (free : Bool) :
    Fails (Stop.BlamesOnly (Predicate.OfAction v.definition a)) (checkPipeline a free v) := by
  refine dispatchPipeline_fails.check.bind (fun dispatch hdispatch => ?_)
  cases dispatch with
  | plain => exact .pure
  | unmatched => trivial
  | matched p =>
    have hp := mem_of_dispatchPipeline (liftM_eq_ok hdispatch)
    refine (Pipeline.payment_fails (.legality hp) (.costCheck hp) free).check.bind
      (fun payment _ => ?_)
    cases payment <;> trivial

/-- Planning an action evaluates no predicates but its own. -/
theorem make_fails (g : Game) (s : State) (m : Move) (a : Action) (free special : Bool) :
    Fails (Stop.Blames (Predicate.OfAction g.definition a)) (make g s m a free special) := by
  have hparams : ∀ name, Predicate.OfParams a name → Predicate.OfAction g.definition a name :=
    fun _ => Predicate.OfParams.ofAction
  refine (checkSeats_fails.widen hparams).bind (fun executor _ => Fails.blames ?_)
  refine (checkAvailable_fails s).bind (fun _ _ => ?_)
  refine ((checkParams_fails (List.Subset.refl _)).relabel hparams).bind (fun _ _ => ?_)
  refine (holdsIn_fails .precondition _ _).check.bind (fun holds _ => .ensureBind ?_)
  exact (checkPipeline_fails free).bind (fun _ _ => .pure)

/-! ## Carrying out -/

variable {labels : Predicate → Prop} (p : Plan) (r : Rules)

/-- The effects of a plan blame nothing. -/
theorem runEffects_fails (cause : Cause) (root : String) (effects : List Effect) (x : Performance) :
    Fails (Stop.BlamesOnly labels) (p.runEffects r cause root effects x) := by
  have hrun :=
    Session.run_fails x.session (p.setting r cause) (p.pathStart ++ root) p.bindings effects
  refine (hrun.mapError (fun e he => ?_)).bind (fun _ _ => .pure)
  cases e with
  | fault f => exact Fault.Plain.blamesOnly he
  | pending d => trivial
  | refused name cause => trivial

/-- Paying for a plan blames nothing. -/
theorem pay_fails (x : Performance) : Fails (Stop.BlamesOnly labels) (p.pay r x) := by
  unfold pay
  split
  · exact p.runEffects_fails r _ _ _ x
  · trivial

/-- The stages of a plan blame nothing, if what comes after each stage does not. -/
theorem runStages_fails {after : Nat → Performance → Check Performance}
    (hafter : ∀ i x, Fails (Stop.BlamesOnly labels) (after i x)) :
    ∀ (stages : List Stage) (i : Nat) (x : Performance),
      Fails (Stop.BlamesOnly labels) (p.runStages r after i stages x)
  | [], _, _ => trivial
  | stage :: stages, i, x => by
    refine (p.runEffects_fails r _ _ _ x).bind (fun y _ => ?_)
    exact (hafter i y).bind (fun z _ => runStages_fails hafter stages (i + 1) z)

end Plan

namespace Rules

variable {labels : Predicate → Prop} (r : Rules)

/-- A special activity at a place of its host blames nothing. -/
theorem sideline_fails (special : Option (Accompaniment Plan)) (timing : Timing)
    (afterStage : Option Nat) (x : Performance) :
    Fails (Stop.BlamesOnly labels) (r.sideline special timing afterStage x) := by
  cases special with
  | none => trivial
  | some c =>
    refine .ite (fun _ => ?_) (fun _ => trivial)
    refine (c.special.pay_fails r x).bind (fun y _ => ?_)
    have hnothing : ∀ (_ : Nat) (x : Performance),
        Fails (Stop.BlamesOnly labels) (.ok x : Check Performance) :=
      fun _ _ => trivial
    exact c.special.runStages_fails r hnothing _ 0 y

/-- Effects blame nothing. -/
theorem perform_fails (host : Plan) (special : Option (Accompaniment Plan)) (x : Performance) :
    Fails (Stop.BlamesOnly labels) (r.perform host special x) := by
  refine (host.pay_fails r x).bind (fun y _ => ?_)
  refine (r.sideline_fails special .before none y).bind (fun y _ => ?_)
  refine Fails.bind ?_ (fun z _ => r.sideline_fails special .after none z)
  exact host.runStages_fails r (fun i x => r.sideline_fails special .during (some i) x) _ 0 y

/-! ## Moves -/

/-- The predicates that are evaluated to plan the special activity of a move. -/
def OfSpecial (m : Move) (name : Predicate) : Prop :=
  ∃ c a, m.compound = some c ∧ r.definition.action? c.special.action = some a ∧
    Predicate.OfAction r.definition a name

variable (s : State) (m : Move)

/-- The check of a compound blames predicates of the special activity only. -/
theorem checkCompound_fails : Fails (Stop.BlamesOnly (r.OfSpecial m)) (r.checkCompound s m) := by
  unfold checkCompound
  split
  · rename_i c hc
    refine .ensureBind (Fails.bind (.ensure _ _ _) (fun _ hdeclared => ?_))
    obtain ⟨a, ha⟩ := Option.isSome_iff_exists.1 (ensure_eq_ok hdeclared)
    have hid : a.id = c.special.action := by simpa using List.find?_some ha
    rw [← hid]
    refine Fails.bind ?_ (fun dispatch _ => ?_)
    · refine dispatchPipeline_fails.check.relabel (fun name hname => ⟨c, a, hc, ha, hname⟩)
    · cases dispatch with
      | plain => trivial
      | unmatched => trivial
      | matched p =>
        refine .ensureBind ?_
        split <;> trivial
  · trivial

/-- The check of the time of a special activity blames nothing. -/
theorem checkTiming_fails {labels : Predicate → Prop} (c : Accompaniment Move) (stages : Nat)
    (host : ActionId) : Fails (Stop.BlamesOnly labels) (c.checkTiming stages host) := by
  unfold Accompaniment.checkTiming
  split <;> first | exact .ensure _ _ _ | trivial

/-- Planning a special activity blames predicates of it, or a selector. -/
theorem planCompound_fails (stages : Nat) :
    Fails (Stop.Blames (r.OfSpecial m)) (r.planCompound s m stages) := by
  unfold planCompound
  split
  · rename_i c hc
    refine Fails.bind (Fails.bind (checkTiming_fails c _ _).blames (fun _ _ => ?_))
      (fun _ _ => .pure)
    cases ha : r.definition.action? c.special.action with
    | none => trivial
    | some a =>
      refine Fails.bind ?_ (fun _ _ => .pure)
      exact (Plan.make_fails _ s _ a _ _).widen (fun name hname => ⟨c, a, hc, ha, hname⟩)
  · trivial

end Rules

end Tabletop
