import Tabletop.Effect.Run
import Tabletop.Proofs.Expr.Faults

/-!
# How runs of effects fail

Effects evaluate expressions in sessions, and the game goes on or not by what they come to; no
predicate of the definition is named and no selector resolved on the way.  So a run that fails,
fails with a fault of a computation itself, which says nothing of where it arose but the path of an
effect.

Main statement: `Session.run_fails`.
-/

namespace Tabletop

/-- A halt that is a fault of a computation itself, if it is a fault. -/
def Halt.Plain : Halt → Prop
  | .fault f => f.Plain
  | .pending _ => True
  | .refused _ _ => True

section

variable {α : Type} {v : View} {names : List String} {a : Result α}

/-- An evaluation fails with a fault of its own. -/
theorem Fails.plain (h : Fails (v.Faults names) a) : Fails Fault.Plain a :=
  h.mono (fun _ => View.Faults.plain)

/-- An evaluation that is plain stays so within a run of effects. -/
theorem Fails.attempt (h : Fails Fault.Plain a) : Fails Halt.Plain (liftM a : Attempt α) :=
  h.mapError (fun _ hf => hf)

/-- The faults of an evaluation are plain whatever names it reads, for none of them is the run's
own. -/
theorem Fails.evaluation (h : Fails (v.Faults names) a) : Fails Halt.Plain (liftM a : Attempt α) :=
  h.plain.attempt

end

/-- Demanding something is plain if the fault for its absence is. -/
theorem orFault_plain {α : Type} {fault : Fault} (h : fault.Plain) (x : Option α) :
    Fails Halt.Plain (liftM (orFault x fault) : Attempt α) :=
  (orFault_fails h x).attempt

/-- A stacking limit that is passed is a plain fault. -/
theorem checkStacking_fails (d : Definition) (store : Store) (zone : ZoneId) :
    Fails Fault.Plain (checkStacking d store zone) := by
  unfold checkStacking
  split
  · trivial
  · split <;> trivial

namespace Site

variable (s : Site) (x : Session)

/-! ## Tokens -/

/-- Locating a token fails plainly. -/
theorem locate_fails (id : TokenId) : Fails Halt.Plain (s.locate x id) := by
  unfold locate
  split <;> trivial

/-- Locating a token in a given zone fails plainly. -/
theorem locateIn_fails (id : TokenId) (expected : ZoneId) :
    Fails Halt.Plain (s.locateIn x id expected) :=
  (s.locate_fails x id).bind (fun _ _ => .ite (fun _ => .pure) (fun _ => trivial))

/-- Moving a token from where it was located fails plainly. -/
theorem relocate_fails (id : TokenId) (source : ZoneId) (index : Nat) (target : ZoneId)
    (place : InsertAt) : Fails Halt.Plain (s.relocate x id source index target place) := by
  unfold relocate
  split
  · trivial
  · refine (orFault_plain (by trivial) _).bind (fun store _ => ?_)
    refine .ite (fun _ => .pure) (fun _ => ?_)
    exact (checkStacking_fails _ _ _).attempt.bind (fun _ _ => .pure)

/-- Moving a token between named zones fails plainly. -/
theorem moveToken_fails (token : String) (source target : ZoneRef) (place : InsertAt) :
    Fails Halt.Plain (s.moveToken x token source target place) := by
  refine (View.token_fails _ token).evaluation.bind (fun _ _ => ?_)
  refine (source.resolve_fails _).evaluation.bind (fun _ _ => ?_)
  refine (target.resolve_fails _).evaluation.bind (fun _ _ => ?_)
  exact (s.locateIn_fails x _ _).bind (fun _ _ => s.relocate_fails x _ _ _ _ _)

/-- Moving a token to an adjacent zone fails plainly. -/
theorem moveTokenAdjacent_fails (token : String) (source target : ZoneRef) (place : InsertAt) :
    Fails Halt.Plain (s.moveTokenAdjacent x token source target place) := by
  refine (View.token_fails _ token).evaluation.bind (fun _ _ => ?_)
  refine (source.resolve_fails _).evaluation.bind (fun _ _ => ?_)
  refine (target.resolve_fails _).evaluation.bind (fun _ _ => ?_)
  refine .ite (fun _ => ?_) (fun _ => trivial)
  exact (s.locateIn_fails x _ _).bind (fun _ _ => s.relocate_fails x _ _ _ _ _)

/-- Moving a block of tokens fails plainly. -/
theorem moveBlock_fails (source target : ZoneId) (block rest : List Token) :
    Fails Halt.Plain (s.moveBlock x source target block rest) := by
  refine .ite (fun _ => .pure) (fun _ => ?_)
  refine (orFault_plain (by trivial) _).bind (fun old _ => ?_)
  exact (checkStacking_fails _ _ _).attempt.bind (fun _ _ => .pure)

/-- Parting tokens by a filter fails plainly. -/
theorem part_fails (filter : Filter) : ∀ ts, Fails Fault.Plain (s.part x filter ts)
  | [] => trivial
  | t :: ts => by
    refine (filter.keeps_fails _ _).plain.bind (fun _ _ => ?_)
    exact (part_fails filter ts).bind (fun _ _ => .pure)

/-- Moving all tokens that a filter keeps fails plainly. -/
theorem moveAll_fails (source target : ZoneRef) (filter : Filter) :
    Fails Halt.Plain (s.moveAll x source target filter) := by
  refine (source.resolve_fails _).evaluation.bind (fun _ _ => ?_)
  refine (target.resolve_fails _).evaluation.bind (fun _ _ => ?_)
  refine .ite (fun _ => .pure) (fun _ => ?_)
  exact (s.part_fails x filter _).attempt.bind (fun _ _ => s.moveBlock_fails x _ _ _ _)

/-- Drawing tokens fails plainly. -/
theorem draw_fails (source target : ZoneRef) (count : Expr) :
    Fails Halt.Plain (s.draw x source target count) := by
  refine (count.evalInt_fails _).evaluation.bind (fun _ _ => ?_)
  refine (source.resolve_fails _).evaluation.bind (fun _ _ => ?_)
  refine (target.resolve_fails _).evaluation.bind (fun _ _ => ?_)
  exact .ite (fun _ => .pure) (fun _ => s.moveBlock_fails x _ _ _ _)

/-- Shuffling a zone fails plainly. -/
theorem shuffle_fails (zone : ZoneRef) : Fails Fault.Plain (s.shuffle x zone) :=
  (zone.resolve_fails _).plain.bind (fun _ _ => .ite (fun _ => .pure) (fun _ => .pure))

/-- Evaluating the props of a new token fails plainly. -/
theorem newProps_fails (type : TokenType) :
    ∀ (given : List (String × Expr)) (props : Dict Scalar),
      Fails Fault.Plain (s.newProps x type given props)
  | [], _ => trivial
  | (name, value) :: rest, props => by
    refine .ite (fun _ => ?_) (fun _ => trivial)
    refine (value.eval_fails _).plain.bind (fun _ _ => ?_)
    refine (orFault_fails trivial _).bind (fun _ _ => ?_)
    exact newProps_fails type rest _

/-- Creating a token fails plainly. -/
theorem createToken_fails (type : String) (zone : ZoneRef) (props : Dict Expr) :
    Fails Fault.Plain (s.createToken x type zone props) := by
  refine (orFault_fails trivial _).bind (fun type _ => ?_)
  refine (zone.resolve_fails _).plain.bind (fun _ _ => ?_)
  refine (s.newProps_fails x type _ _).bind (fun _ _ => ?_)
  refine (orFault_fails trivial _).bind (fun _ _ => ?_)
  exact (checkStacking_fails _ _ _).bind (fun _ _ => .pure)

/-- Destroying a token fails plainly. -/
theorem destroyToken_fails (token : String) : Fails Halt.Plain (s.destroyToken x token) := by
  refine (View.token_fails _ token).evaluation.bind (fun _ _ => ?_)
  exact (s.locate_fails x _).bind (fun _ _ => .pure)

/-- Setting a prop of a token fails plainly. -/
theorem setTokenProp_fails (token prop : String) (value : Expr) :
    Fails Halt.Plain (s.setTokenProp x token prop value) := by
  refine (View.token_fails _ token).evaluation.bind (fun _ _ => ?_)
  refine (s.locate_fails x _).bind (fun _ _ => ?_)
  refine (value.eval_fails _).evaluation.bind (fun _ _ => ?_)
  refine (orFault_plain (by trivial) _).bind (fun _ _ => ?_)
  split
  · trivial
  · refine (orFault_plain (by trivial) _).bind (fun _ _ => ?_)
    refine (orFault_plain (by trivial) _).bind (fun _ _ => ?_)
    exact .ite (fun _ => .pure) (fun _ => .pure)

/-- Removing items one by one fails plainly. -/
theorem removeItems_fails (target : ZoneId) :
    ∀ (items : List Value) (budget : Nat) (x : Session),
      Fails Halt.Plain (s.removeItems target items budget x)
  | [], 0, _ => trivial
  | _ :: _, 0, _ => trivial
  | [], _ + 1, _ => trivial
  | item :: items, budget + 1, x => by
    refine (orFault_plain (by trivial) _).bind (fun _ _ => ?_)
    refine (s.locate_fails x _).bind (fun _ _ => ?_)
    refine (s.relocate_fails x _ _ _ _ _).bind (fun _ _ => ?_)
    exact removeItems_fails target items budget _

/-- Removing from groups in turn fails plainly. -/
theorem removeGroups_fails :
    ∀ (groups : List PriorityGroup) (budget : Nat) (x : Session),
      Fails Halt.Plain (s.removeGroups groups budget x)
  | [], 0, _ => trivial
  | _ :: _, 0, _ => trivial
  | [], _ + 1, _ => trivial
  | g :: groups, budget + 1, x => by
    refine (g.source.eval_fails _).evaluation.bind (fun _ _ => ?_)
    refine (g.target.resolve_fails _).evaluation.bind (fun _ _ => ?_)
    refine (s.removeItems_fails _ _ _ x).bind (fun _ _ => ?_)
    exact removeGroups_fails groups _ _

/-- Removing by priority fails plainly. -/
theorem removeByPriority_fails (budget : Expr) (groups : List PriorityGroup) :
    Fails Halt.Plain (s.removeByPriority x budget groups) := by
  refine (budget.evalInt_fails _).evaluation.bind (fun _ _ => ?_)
  refine .ite (fun _ => trivial) (fun _ => ?_)
  exact (s.removeGroups_fails groups _ x).bind (fun _ _ => .pure)

/-! ## Variables, markers and the course of play -/

/-- Looking up the slot of a variable fails plainly. -/
theorem varSlot_fails (target : VarTarget) (name : String) :
    Fails Fault.Plain (s.varSlot x target name) := by
  cases target with
  | global => exact (orFault_fails trivial _).bind (fun _ _ => .pure)
  | seat seat =>
    refine (seat.resolve_fails _).plain.bind (fun _ _ => ?_)
    exact (orFault_fails trivial _).bind (fun _ _ => .pure)
  | zone zone =>
    refine (zone.resolve_fails _).plain.bind (fun _ _ => ?_)
    exact (orFault_fails trivial _).bind (fun _ _ => .pure)

/-- Setting a variable fails plainly. -/
theorem setVar_fails (target : VarTarget) (name : String) (value : Expr) :
    Fails Fault.Plain (s.setVar x target name value) := by
  refine (value.eval_fails _).plain.bind (fun _ _ => ?_)
  refine (orFault_fails trivial _).bind (fun _ _ => ?_)
  exact (s.varSlot_fails x target name).bind (fun _ _ => .pure)

/-- Adding to a variable fails plainly. -/
theorem addVar_fails (target : VarTarget) (name : String) (delta : Expr) :
    Fails Fault.Plain (s.addVar x target name delta) := by
  refine (delta.evalInt_fails _).plain.bind (fun _ _ => ?_)
  exact (s.varSlot_fails x target name).bind (fun _ _ => .pure)

/-- Setting a marker fails plainly. -/
theorem setMarker_fails (space : ZoneRef) (marker : String) (state : Expr) :
    Fails Halt.Plain (s.setMarker x space marker state) := by
  refine (space.resolve_fails _).evaluation.bind (fun _ _ => ?_)
  refine (state.eval_fails _).evaluation.bind (fun _ _ => ?_)
  refine (orFault_plain (by trivial) _).bind (fun _ _ => ?_)
  refine (orFault_plain (by trivial) _).bind (fun _ _ => ?_)
  refine .ite (fun _ => ?_) (fun _ => trivial)
  refine (State.marker_fails (s.view x) [] _ _ _ _).evaluation.bind (fun _ _ => ?_)
  exact .ite (fun _ => .pure) (fun _ => .pure)

/-- Looking up the cards fails plainly. -/
theorem cards_fails (effect : String) : Fails Halt.Plain (s.cards x effect) := by
  unfold cards
  split <;> trivial

/-- Granting a free operation fails plainly. -/
theorem grantFreeOperation_fails (offer : GrantOffer) :
    Fails Halt.Plain (s.grantFreeOperation x offer) := by
  refine (offer.seat.resolve_fails _).evaluation.bind (fun _ _ => ?_)
  refine .ite (fun _ => trivial) (fun _ => ?_)
  exact (s.cards_fails x _).bind (fun _ _ => .pure)

/-- Overriding an eligibility fails plainly. -/
theorem setEligibilityOverride_fails (seat : SeatRef) (eligible : Bool) :
    Fails Halt.Plain (s.setEligibilityOverride x seat eligible) := by
  refine (seat.resolve_fails _).evaluation.bind (fun _ _ => ?_)
  exact (s.cards_fails x _).bind (fun _ _ => .pure)

/-- Interrupting the current phase fails plainly. -/
theorem pushInterruptPhase_fails (phase : PhaseId) :
    Fails Halt.Plain (s.pushInterruptPhase x phase) :=
  .ite (fun _ => trivial) (fun _ => trivial)

/-! ## Choices -/

end Site

/-- Filling in what is left of a name fails plainly. -/
theorem Bindings.fillFrom_fails (b : Bindings) :
    ∀ (key : Option (List Char)) (cs : List Char), Fails Fault.Plain (b.fillFrom key cs)
  | none, [] => trivial
  | some _, [] => trivial
  | none, c :: cs => by
    unfold fillFrom
    refine .ite (fun _ => fillFrom_fails b (some []) cs) (fun _ => ?_)
    exact (fillFrom_fails b none cs).bind (fun _ _ => .pure)
  | some key, c :: cs => by
    unfold fillFrom
    refine .ite (fun _ => ?_) (fun _ => fillFrom_fails b (some (c :: key)) cs)
    refine (orFault_fails trivial _).bind (fun _ _ => ?_)
    exact (fillFrom_fails b none cs).bind (fun _ _ => .pure)

/-- Filling in the placeholders of a name fails plainly. -/
theorem Bindings.fill_fails (b : Bindings) (name : String) : Fails Fault.Plain (b.fill name) := by
  have h := b.fillFrom_fails none name.toList
  unfold fill
  cases hfilled : b.fillFrom none name.toList with
  | ok cs => trivial
  | error f => exact h.of_error hfilled

namespace Site

variable (s : Site) (x : Session)

/-- Asking for a missing selection fails plainly. -/
theorem missing_fails {α : Type} (d : Decision) : Fails Halt.Plain (s.missing d : Attempt α) := by
  unfold missing
  split <;> trivial

/-- Refusing a selection fails plainly. -/
theorem refuse_fails {α : Type} (name : String) (cause : ChoiceFault) :
    Fails Halt.Plain (s.refuse name cause : Attempt α) := by
  unfold refuse
  split <;> trivial

/-- A choice of one fails plainly. -/
theorem chooseOne_fails (bind : String) (options : Query) :
    Fails Halt.Plain (s.chooseOne x bind options) := by
  refine (s.bindings.fill_fails bind).attempt.bind (fun name _ => ?_)
  refine (options.eval_fails _).evaluation.bind (fun domain _ => ?_)
  split
  · exact s.missing_fails _
  · split
    · exact s.refuse_fails _ _
    · exact .pure

/-- Evaluating how many may be chosen fails plainly. -/
theorem bounds_fails (c : Cardinality) (size : Nat) : Fails Fault.Plain (s.bounds x c size) := by
  have hint : ∀ e : Expr, Fails Fault.Plain (e.evalInt (s.view x)) :=
    fun e => (e.evalInt_fails _).plain
  unfold bounds
  cases c.exactly with
  | some e => exact (hint e).bind (fun _ _ => .pure)
  | none =>
    cases c.atLeast with
    | none =>
      cases c.atMost with
      | none => exact .pure
      | some e => exact (hint e).bind (fun _ _ => .pure)
    | some e =>
      refine (hint e).bind (fun _ _ => ?_)
      cases c.atMost with
      | none => exact .pure
      | some e => exact (hint e).bind (fun _ _ => .pure)

/-- A choice of several fails plainly. -/
theorem chooseN_fails (bind : String) (options : Query) (c : Cardinality) :
    Fails Halt.Plain (s.chooseN x bind options c) := by
  refine (s.bindings.fill_fails bind).attempt.bind (fun name _ => ?_)
  refine (options.eval_fails _).evaluation.bind (fun domain _ => ?_)
  refine (s.bounds_fails x c _).attempt.bind (fun p _ => ?_)
  refine .ite (fun _ => trivial) (fun _ => ?_)
  dsimp only
  split
  · exact s.missing_fails _
  · split
    · exact s.refuse_fails _ _
    · exact .pure
  · exact s.refuse_fails _ _

/-! ## Loops and rolls -/

/-- Paying for an operation fails plainly: a budget that is exceeded is a fault of the run
itself. -/
theorem spend_fails : Fails Halt.Plain (s.spend x) :=
  .ite (fun _ => trivial) (fun _ => .ite (fun _ => trivial) (fun _ => trivial))

/-- Evaluating the limit of a loop fails plainly. -/
theorem loopLimit_fails (limit : Option Expr) : Fails Halt.Plain (s.loopLimit x limit) := by
  cases limit with
  | none => exact .pure
  | some e =>
    refine (e.evalInt_fails _).evaluation.bind (fun _ _ => ?_)
    exact .ite (fun _ => trivial) (fun _ => .pure)

/-- Folding over items fails plainly. -/
theorem foldItems_fails (item acc : String) (next : Expr) :
    ∀ (items : List Value) (value : Value),
      Fails Fault.Plain (s.foldItems x item acc next items value)
  | [], _ => trivial
  | _ :: items, _ =>
    (next.eval_fails _).plain.bind (fun _ _ => foldItems_fails item acc next items _)

/-- Folding over a query fails plainly. -/
theorem foldQuery_fails (source : Query) (item acc : String) (initial next : Expr) :
    Fails Fault.Plain (s.foldQuery x source item acc initial next) := by
  refine (source.eval_fails _).plain.bind (fun _ _ => ?_)
  refine (initial.eval_fails _).plain.bind (fun _ _ => ?_)
  exact s.foldItems_fails x item acc next _ _

/-- Drawing a number fails plainly. -/
theorem roll_fails (min max : Expr) : Fails Halt.Plain (s.roll x min max) := by
  refine (min.evalInt_fails _).evaluation.bind (fun _ _ => ?_)
  refine (max.evalInt_fails _).evaluation.bind (fun _ _ => ?_)
  exact .ite (fun _ => trivial) (fun _ => .pure)

end Site

/-! ## Runs -/

/-- Going on with the same bindings fails as the effect does. -/
theorem keepBindings_fails {s : Site} {a : Attempt Session} (h : Fails Halt.Plain a) :
    Fails Halt.Plain (keepBindings s a) :=
  h.bind (fun _ _ => .pure)

mutual

/-- How an effect fails. -/
theorem Effect.run_fails (e : Effect) (s : Site) (x : Session) :
    Fails Halt.Plain (e.run s x) := by
  cases e with
  | setVar target name value => exact keepBindings_fails (s.setVar_fails x _ _ _).attempt
  | addVar target name delta => exact keepBindings_fails (s.addVar_fails x _ _ _).attempt
  | moveToken token source target place => exact keepBindings_fails (s.moveToken_fails x _ _ _ _)
  | moveAll source target filter => exact keepBindings_fails (s.moveAll_fails x _ _ _)
  | moveTokenAdjacent token source target place =>
    exact keepBindings_fails (s.moveTokenAdjacent_fails x _ _ _ _)
  | draw source target count => exact keepBindings_fails (s.draw_fails x _ _ _)
  | shuffle zone => exact keepBindings_fails (s.shuffle_fails x _).attempt
  | createToken type zone props => exact keepBindings_fails (s.createToken_fails x _ _ _).attempt
  | destroyToken token => exact keepBindings_fails (s.destroyToken_fails x _)
  | setTokenProp token prop value => exact keepBindings_fails (s.setTokenProp_fails x _ _ _)
  | setMarker space marker state => exact keepBindings_fails (s.setMarker_fails x _ _ _)
  | ifThenElse when yes no =>
    rw [Effect.run]
    refine (when.eval_fails _).evaluation.bind (fun holds _ => ?_)
    split
    · exact (Effect.runAll_fails yes _ 0 x).bind (fun _ _ => .pure)
    · exact (Effect.runAll_fails no _ 0 x).bind (fun _ _ => .pure)
  | forEach bind source body limit =>
    rw [Effect.run]
    refine (source.eval_fails _).evaluation.bind (fun items _ => ?_)
    refine (s.loopLimit_fails x limit).bind (fun limit _ => ?_)
    refine Fails.bind (Fails.foldlM (fun y i => ?_) _ _) (fun _ _ => .pure)
    exact (Effect.runAll_fails body _ 0 y).bind (fun _ _ => .pure)
  | letIn bind value body =>
    rw [Effect.run]
    refine (value.eval_fails _).evaluation.bind (fun _ _ => ?_)
    exact (Effect.runAll_fails body _ 0 x).bind (fun _ _ => .pure)
  | reduce source item acc initial next result body =>
    rw [Effect.run]
    refine (s.foldQuery_fails x _ _ _ _ _).attempt.bind (fun _ _ => ?_)
    exact (Effect.runAll_fails body _ 0 x).bind (fun _ _ => .pure)
  | rollRandom bind min max body =>
    rw [Effect.run]
    refine (s.roll_fails x min max).bind (fun p _ => ?_)
    exact (Effect.runAll_fails body _ 0 p.2).bind (fun _ _ => .pure)
  | removeByPriority budget groups countBind body =>
    rw [Effect.run]
    refine (s.removeByPriority_fails x budget groups).bind (fun p _ => ?_)
    exact (Effect.runAll_fails body _ 0 p.2).bind (fun _ _ => .pure)
  | chooseOne bind options =>
    rw [Effect.run]
    exact (s.chooseOne_fails x bind options).bind (fun _ _ => .pure)
  | chooseN bind options cardinality =>
    rw [Effect.run]
    exact (s.chooseN_fails x bind options cardinality).bind (fun _ _ => .pure)
  | grantFreeOperation offer => exact keepBindings_fails (s.grantFreeOperation_fails x offer)
  | setEligibilityOverride seat eligible =>
    exact keepBindings_fails (s.setEligibilityOverride_fails x seat eligible)
  | pushInterruptPhase phase => exact keepBindings_fails (s.pushInterruptPhase_fails x phase)

/-- How effects fail that run one after the other. -/
theorem Effect.runAll_fails (es : List Effect) (s : Site) (i : Nat) (x : Session) :
    Fails Halt.Plain (Effect.runAll es s i x) := by
  cases es with
  | nil => trivial
  | cons e es =>
    rw [Effect.runAll]
    refine ((s.entry i e).spend_fails x).bind (fun y _ => ?_)
    refine (Effect.run_fails e (s.entry i e) y).bind (fun p _ => ?_)
    exact Effect.runAll_fails es _ (i + 1) p.1

end

/-- How a whole run fails. -/
theorem Session.run_fails (x : Session) (setting : Setting) (root : String) (b : Bindings)
    (effects : List Effect) : Fails Halt.Plain (x.run setting root b effects) :=
  (Effect.runAll_fails effects { setting, path := root, bindings := b } 0 x).bind (fun _ _ => .pure)

/-- What a halt amounts to is a fault of a computation itself. -/
theorem Halt.Plain.toFault {h : Halt} (hplain : h.Plain) : h.toFault.Plain := by
  cases h with
  | fault => exact hplain
  | pending => trivial
  | refused => trivial

/-- How a run fails where no decision may be left open. -/
theorem runEffects_plain (setting : Setting) (root : String) (b : Bindings) (effects : List Effect)
    (s : State) : Fails Fault.Plain (runEffects setting root b effects s) :=
  (Session.run_fails { state := s } setting root b effects).mapError (fun _ => Halt.Plain.toFault)

end Tabletop
