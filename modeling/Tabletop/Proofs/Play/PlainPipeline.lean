import Tabletop.Play.Start
import Tabletop.Proofs.Paired.Basic
import Tabletop.Proofs.Play.OtherPipelines

/-!
# Actions with a plain pipeline

A pipeline that says no more than what its action costs is plain: it always applies, forbids
nothing, and has no stages of its own.  An action without pipelines is carried out in other branches
than one that has a plain pipeline: when it is planned, when it is checked as a special activity,
and when moves with special activities are listed.  Nothing of that shows: every move resolves
alike, is listed alike and leads to the same.

Of several actions with one id the first one counts.  So the pipeline has to spell out the cost of
that one; with the cost of another action, hidden behind it, it would be a new price.

Main statement: `Game.same_with_plain_pipeline`.
-/

namespace Tabletop

/-- The pipeline that only spells out the cost of an action. -/
def Pipeline.plain (id : PipelineId) (a : Action) : Pipeline :=
  { id, action := a.id, cost := a.cost }

/-- Some pipelines are those of a definition, with a plain pipeline besides for an action that has
none.  Where the action is hidden behind another one of its id, that one costs the same. -/
structure Definition.Besides (d : Definition) (a : Action) (id : PipelineId) (ps : List Pipeline) :
    Prop where
  unpiped : d.pipelinesOf a.id = []
  cost : ∀ b, d.action? a.id = some b → b.cost = a.cost
  inserted : ∃ before after, d.pipelines = before ++ after ∧ ps = before ++ .plain id a :: after

/-! ## What carries out an action -/

namespace Definition.Besides

variable {d : Definition} {a : Action} {id : PipelineId} {ps : List Pipeline}

/-- The action has the plain pipeline, and the other actions have what they had. -/
theorem pipelinesOf_eq (h : d.Besides a id ps) (action : ActionId) :
    ps.filter (·.action == action) =
      if action = a.id then [.plain id a] else d.pipelinesOf action := by
  obtain ⟨before, after, hsplit, rfl⟩ := h.inserted
  have hunpiped := h.unpiped
  unfold pipelinesOf at hunpiped ⊢
  rw [hsplit, List.filter_append, List.append_eq_nil_iff] at hunpiped
  rw [hsplit, List.filter_append, List.filter_append, List.filter_cons]
  by_cases haction : action = a.id
  · subst haction
    simp [hunpiped, Pipeline.plain]
  · simp [haction, Ne.symm haction, Pipeline.plain]

/-- The plain pipeline carries out its action, and the other actions are carried out as they
were. -/
theorem dispatchPipeline_eq {v : View} (h : v.definition.Besides a id ps) (action : ActionId) :
    dispatchPipeline action (v.withPipelines ps) =
      if action = a.id then .ok (.matched (.plain id a)) else dispatchPipeline action v := by
  have hsame := Pipeline.firstApplying?_withPipelines v ps
  unfold dispatchPipeline
  have hpipelines : (v.withPipelines ps).definition.pipelinesOf action = _ :=
    h.pipelinesOf_eq action
  rw [hpipelines]
  dsimp only
  rw [hsame]
  by_cases haction : action = a.id
  · rw [if_pos haction, if_pos haction]
    rfl
  · rw [if_neg haction, if_neg haction]

/-- An action without pipelines is carried out as it is. -/
theorem dispatchPipeline_of_unpiped {v : View} (h : v.definition.Besides a id ps) :
    dispatchPipeline a.id v = .ok .plain := by
  simp only [dispatchPipeline, h.unpiped]
  rfl

end Definition.Besides

/-! ## Plans -/

section

variable {g : Game} {a : Action} {id : PipelineId} {ps : List Pipeline}

/-- An action of the definition is carried out alike with the plain pipeline besides, for it pays
the same. -/
theorem Plan.checkPipeline_besides {v : View} (h : v.definition.Besides a id ps) {b : Action}
    (hb : v.definition.action? b.id = some b) (free : Bool) :
    checkPipeline b free (v.withPipelines ps) = checkPipeline b free v := by
  unfold checkPipeline
  rw [h.dispatchPipeline_eq]
  by_cases haction : b.id = a.id
  · have hcost : b.cost = a.cost := h.cost b (haction ▸ hb)
    rw [if_pos haction, haction, h.dispatchPipeline_of_unpiped, hcost]
    cases free <;> rfl
  · rw [if_neg haction]
    refine bind_congr (fun dispatch => ?_)
    cases dispatch with
    | matched p => simp only [Pipeline.payment_withPipelines]
    | _ => rfl

/-- An action is planned alike. -/
theorem Plan.make_besides (h : g.definition.Besides a id ps) (s : State) (m : Move) {b : Action}
    {action : ActionId} (hb : g.definition.action? action = some b) (free special : Bool) :
    make (g.withPipelines ps) s m b free special = make g s m b free special := by
  have hid : b.id = action := by simpa using List.find?_some hb
  subst hid
  let v (actor : Seat) : View := { game := g, state := s, bindings := .ofParams m.params, actor }
  have hseats := checkSeats_withPipelines (v s.active) ps b m special
  refine (congrArg (· >>= _) hseats).trans (bind_congr (fun executor => bind_congr (fun _ => ?_)))
  have hparams := checkParams_withPipelines (v executor) ps b m special b.params
  refine (congrArg (· >>= _) hparams).trans (bind_congr (fun _ => ?_))
  have hpre := holdsIn_withPipelines (v executor) ps (.precondition b.id) b.pre
  refine (congrArg (fun holds => (liftM holds : Check Bool) >>= _) hpre).trans ?_
  refine bind_congr (fun holds => bind_congr (fun _ => ?_))
  exact congrArg (· >>= _) (checkPipeline_besides (v := v executor) h hb free)

/-- A special activity is checked alike with the plain pipeline besides. -/
theorem Accompaniment.check_besides (h : g.definition.Besides a id ps) (c : Accompaniment Move)
    (s : State) (host : Move) : c.check (g.withPipelines ps) s host = c.check g s host := by
  let v : View :=
    { game := g, state := s, bindings := .ofParams c.special.params, actor := s.active }
  have hdispatch := h.dispatchPipeline_eq (v := v) c.special.action
  refine bind_congr (fun _ => bind_congr (fun _ => ?_))
  refine (congrArg (fun dispatch => (liftM dispatch : Check Dispatch) >>= _) hdispatch).trans ?_
  by_cases haction : c.special.action = a.id
  · have hplain : dispatchPipeline c.special.action v = .ok .plain :=
      haction ▸ h.dispatchPipeline_of_unpiped (v := v)
    rw [if_pos haction]
    change _ = (liftM (dispatchPipeline c.special.action v) : Check Dispatch) >>= _
    rw [hplain]
    rfl
  · rw [if_neg haction]

end

/-! ## Moves -/

namespace Rules

variable {r : Rules} {a : Action} {id : PipelineId} {ps : List Pipeline}

/-- A special activity is planned alike with the plain pipeline besides. -/
theorem planSpecial_besides (h : r.definition.Besides a id ps) (s : State) (host : Move)
    (stages : Nat) (c : Accompaniment Move) :
    (r.withPipelines ps).planSpecial s host stages c = r.planSpecial s host stages c := by
  refine bind_congr (fun _ => ?_)
  have hfind : (r.withPipelines ps).definition.action? c.special.action =
      r.definition.action? c.special.action := rfl
  rw [hfind]
  cases hb : r.definition.action? c.special.action with
  | none => rfl
  | some b => exact congrArg (· >>= _) (Plan.make_besides h s c.special hb host.free true)

/-- The special activity of a move is planned alike with the plain pipeline besides. -/
theorem planCompound_besides (h : r.definition.Besides a id ps) (s : State) (m : Move)
    (stages : Nat) :
    (r.withPipelines ps).planCompound s m stages = r.planCompound s m stages := by
  unfold planCompound
  cases m.compound with
  | none => rfl
  | some c => simp only [planSpecial_besides h]

/-- The check of a compound comes out alike with the plain pipeline besides. -/
theorem checkCompound_besides (h : r.definition.Besides a id ps) (s : State) (m : Move) :
    (r.withPipelines ps).checkCompound s m = r.checkCompound s m := by
  unfold checkCompound
  cases m.compound with
  | none => rfl
  | some c => exact c.check_besides h s m

/-- A move resolves alike. -/
theorem resolve_besides (h : r.definition.Besides a id ps) (s : State) (m : Move) :
    (r.withPipelines ps).resolve s m = r.resolve s m := by
  have hfind : (r.withPipelines ps).definition.action? m.action = r.definition.action? m.action :=
    rfl
  unfold resolve
  rw [outcome?_withPipelines, hfind]
  cases hb : r.definition.action? m.action with
  | none => rfl
  | some b =>
    have hmake : Plan.make (r.withPipelines ps).game s m b m.free false =
        Plan.make r.game s m b m.free false := Plan.make_besides h s m hb m.free false
    simp only [resolveAs, checkCompound_besides h, checkGrant_withPipelines, hmake,
      planCompound_besides h, perform_withPipelines]

/-! ## Lists of legal moves -/

/-- A move is explored alike with the plain pipeline besides, by induction on the levels that are
left. -/
theorem explore_besides (h : r.definition.Besides a id ps) (s : State) (cap : Nat) :
    ∀ fuel m found, (r.withPipelines ps).explore s cap fuel m found = r.explore s cap fuel m found
  | 0, _, _ => rfl
  | fuel + 1, m, found => by
    simp only [explore, resolve_besides h, explore_besides h s cap fuel]

/-- Moves are explored alike with the plain pipeline besides. -/
theorem exploreAll_besides (h : r.definition.Besides a id ps) (s : State) (cap : Nat) :
    ∀ ms found, (r.withPipelines ps).exploreAll s cap ms found = r.exploreAll s cap ms found
  | [], _ => rfl
  | m :: ms, found => by
    simp only [exploreAll, explore_besides h, exploreAll_besides h s cap ms]
    rfl

/-- A host that a plain pipeline carries out has one stage, as it has without. -/
theorem stagesOf_besides (h : r.definition.Besides a id ps) (host : ActionId) :
    (r.withPipelines ps).stagesOf host = r.stagesOf host := by
  have hpipelines : (r.withPipelines ps).definition.pipelinesOf host = _ := h.pipelinesOf_eq host
  unfold stagesOf
  rw [hpipelines]
  by_cases haction : host = a.id
  · rw [if_pos haction, haction, h.unpiped]
    rfl
  · rw [if_neg haction]

/-- A plain pipeline names no hosts, so it makes its action no special activity. -/
theorem specialsOf_besides (h : r.definition.Besides a id ps) (host : ActionId) :
    (r.withPipelines ps).specialsOf host = r.specialsOf host := by
  obtain ⟨before, after, hsplit, rfl⟩ := h.inserted
  unfold specialsOf
  rw [hsplit]
  change (((before ++ .plain id a :: after).filter _).map _).eraseDups = _
  rw [List.filter_append, List.filter_append, List.filter_cons]
  rfl

/-- Moves with special activities are built alike with the plain pipeline besides, which names
none. -/
theorem compoundsOf_besides (h : r.definition.Besides a id ps) :
    (r.withPipelines ps).compoundsOf = r.compoundsOf := by
  funext host
  simp only [compoundsOf, specialsOf_besides h, stagesOf_besides h]

/-- The same moves are listed. -/
theorem legalMoves_besides (h : r.definition.Besides a id ps) (s : State) (cap : Nat)
    (compounds : Bool) :
    (r.withPipelines ps).legalMoves s cap compounds = r.legalMoves s cap compounds := by
  unfold legalMoves
  rw [outcome?_withPipelines]
  simp only [exploreAll_besides h, compoundsOf_besides h]
  rfl

/-! ## Making moves -/

/-- A state has something to decide or not alike with the plain pipeline besides. -/
theorem atDecision_besides (h : r.definition.Besides a id ps) (s : State) :
    (r.withPipelines ps).atDecision s = r.atDecision s := by
  unfold atDecision
  rw [outcome?_withPipelines]
  simp only [hasLegalMove, legalMoves_besides h]

/-- The game goes on alike. -/
theorem advanceWithin_besides (h : r.definition.Besides a id ps) :
    ∀ n p, (r.withPipelines ps).advanceWithin n p = r.advanceWithin n p
  | 0, p => by
    simp only [advanceWithin, atDecision_besides h]
    rfl
  | n + 1, p => by
    simp only [advanceWithin, atDecision_besides h, transition_withPipelines,
      advanceWithin_besides h n]

/-- A resolved move is committed alike with the plain pipeline besides. -/
theorem commit_besides (h : r.definition.Besides a id ps) (m : Move) (mover : Seat)
    (x : Resolution) :
    (r.withPipelines ps).commit m mover x = r.commit m mover x := by
  simp only [commit, goOn, advance, takeActions_withPipelines, reactTo_withPipelines,
    endTurn_withPipelines, advanceWithin_besides h]
  rfl

/-- A move leads to the same. -/
theorem makeMove_besides (h : r.definition.Besides a id ps) (s : State) (m : Move) :
    (r.withPipelines ps).makeMove s m = r.makeMove s m := by
  simp only [makeMove, resolve_besides h, commit_besides h]
  rfl

/-- A partial move stands alike with the plain pipeline besides. -/
theorem standing_besides (h : r.definition.Besides a id ps) (s : State) (m : Move) :
    (r.withPipelines ps).standing s m = r.standing s m := by
  rw [standing, standing, resolve_besides h]

end Rules

/-! ## The game with the pipeline -/

/-- An action without pipelines, and a plain pipeline for it anywhere among those of the definition.
Unless the action is hidden behind one of its id that costs something else, nothing changes: under
all limits every move resolves alike in every state, stands alike and leads to the same state,
firings, warnings and trace, or is rejected alike; and every list of legal moves is the same, with
special activities and without. -/
theorem Game.same_with_plain_pipeline (d : Definition) (a : Action)
    (hunpiped : d.pipelinesOf a.id = [])
    (hcost : ∀ b, d.action? a.id = some b → b.cost = a.cost) (before after : List Pipeline)
    (hsplit : d.pipelines = before ++ after) (id : PipelineId) :
    let g := ofDefinition d
    let g' := ofDefinition { d with pipelines := before ++ .plain id a :: after }
    (∀ limits s m,
      Rules.resolve { game := g', limits } s m = Rules.resolve { game := g, limits } s m ∧
      Rules.standing { game := g', limits } s m = Rules.standing { game := g, limits } s m ∧
      Rules.makeMove { game := g', limits } s m = Rules.makeMove { game := g, limits } s m) ∧
    ∀ s l, g'.legalMoves s l = g.legalMoves s l := by
  intro g g'
  have h : d.Besides a id (before ++ .plain id a :: after) :=
    ⟨hunpiped, hcost, before, after, hsplit, rfl⟩
  refine ⟨fun limits s m => ?_, fun s l => ?_⟩
  · let r : Rules := { game := g, limits }
    have hr : r.definition.Besides a id (before ++ .plain id a :: after) := h
    exact ⟨Rules.resolve_besides hr s m, Rules.standing_besides hr s m,
      Rules.makeMove_besides hr s m⟩
  · let r : Rules := { game := g, limits := l.limits }
    have hr : r.definition.Besides a id (before ++ .plain id a :: after) := h
    exact Rules.legalMoves_besides hr s l.maxMoves l.compounds

/-! ## A bridge -/

/-- To cross for nothing. -/
def Action.crossing : Action := .named "cross"

/-- To cross for a coin or a song. -/
def Action.tollCrossing : Action :=
  { id := "cross", cost := [.chooseOne "toll" (.enums ["coin", "song"])] }

/-- A bridge that can be crossed in some ways. -/
def Definition.bridge (ways : List Action) : Definition :=
  { Definition.minimal "bridge" with actions := ways }

/-- The bridge with the price of the toll written on it. -/
def Definition.signpost (d : Definition) : Definition :=
  { d with pipelines := [.plain "sign" .tollCrossing] }

/-- In front of the bridge. -/
def State.bridge : State :=
  ((Game.ofDefinition (.bridge [.crossing])).start 2 0).toOption.getD default

/-- What the toll shall be. -/
def Request.toll : Request where
  decision := .one "cost/0:chooseOne::toll" "toll" [.str "coin", .str "song"]
  special := false

/-- Where the toll is due, it is due with the sign and without, and there are as many ways
across. -/
theorem Game.same_with_plain_pipeline_bridge :
    let g := ofDefinition (.bridge [.tollCrossing])
    let g' := ofDefinition (Definition.bridge [.tollCrossing]).signpost
    Rules.standing { game := g } .bridge { action := "cross" } = .ok (.pending .toll) ∧
    Rules.standing { game := g' } .bridge { action := "cross" } = .ok (.pending .toll) ∧
    g'.legalMoves .bridge { compounds := true } = g.legalMoves .bridge { compounds := true } := by
  intro g g'
  have hcost (b : Action) (hb : (Definition.bridge [.tollCrossing]).action? "cross" = some b) :
      b.cost = Action.tollCrossing.cost := by
    cases hb
    rfl
  obtain ⟨hmoves, hlists⟩ :=
    Game.same_with_plain_pipeline (.bridge [.tollCrossing]) .tollCrossing rfl hcost [] [] rfl "sign"
  have htoll : Rules.standing { game := g } .bridge { action := "cross" } = .ok (.pending .toll) :=
    eq_ok_of_toOption (by decide +kernel)
  exact ⟨htoll, (hmoves _ _ _).2.1.trans htoll, hlists _ _⟩

/-- A way across that is hidden behind a free one of the same name has no pipelines.  With the sign
for it, the toll is due for the free one. -/
theorem Game.hidden_toll_bridge :
    let d := Definition.bridge [.crossing, .tollCrossing]
    Action.tollCrossing ∈ d.actions ∧ d.pipelinesOf Action.tollCrossing.id = [] ∧
    Rules.standing { game := ofDefinition d } .bridge { action := "cross" } = .ok .complete ∧
    Rules.standing { game := ofDefinition d.signpost } .bridge { action := "cross" } =
      .ok (.pending .toll) := by
  refine ⟨List.mem_cons_of_mem _ List.mem_cons_self, rfl, ?_, ?_⟩
  · exact eq_ok_of_toOption (by decide +kernel)
  · exact eq_ok_of_toOption (by decide +kernel)

end Tabletop
