import Tabletop.Effect.Run
import Tabletop.Proofs.Expr.Alike

/-!
# Effects in a game with other pipelines

Effects read the variables, the token types, the zones and the tables of a definition, and what they
evaluate reads no more.  So they come to the same in a game with other pipelines, faults included.

Main statement: `Session.run_withPipelines`.
-/

namespace Tabletop

/-- The setting in the game with other pipelines. -/
def Setting.withPipelines (s : Setting) (ps : List Pipeline) : Setting :=
  { s with game := s.game.withPipelines ps }

namespace Site

/-- The site in the game with other pipelines. -/
def withPipelines (s : Site) (ps : List Pipeline) : Site :=
  { s with setting := s.setting.withPipelines ps }

variable (s : Site) (ps : List Pipeline) (x : Session)

/-- What is seen in the game with other pipelines is the view with them. -/
theorem view_withPipelines : (s.withPipelines ps).view x = (s.view x).withPipelines ps := rfl

/-! ## Single effects -/

/-- Setting a variable does not look at pipelines. -/
theorem setVar_withPipelines (target : VarTarget) (name : String) (value : Expr) :
    (s.withPipelines ps).setVar x target name value = s.setVar x target name value := by
  rw [setVar, view_withPipelines, Expr.eval_withPipelines]
  rfl

/-- Adding to a variable does not look at pipelines. -/
theorem addVar_withPipelines (target : VarTarget) (name : String) (delta : Expr) :
    (s.withPipelines ps).addVar x target name delta = s.addVar x target name delta := by
  rw [addVar, view_withPipelines, Expr.evalInt_withPipelines]
  rfl

/-- Setting a marker does not look at pipelines. -/
theorem setMarker_withPipelines (space : ZoneRef) (marker : String) (state : Expr) :
    (s.withPipelines ps).setMarker x space marker state = s.setMarker x space marker state := by
  rw [setMarker, view_withPipelines, Expr.eval_withPipelines]
  rfl

/-- Parting tokens by a filter does not look at pipelines. -/
theorem part_withPipelines (filter : Filter) :
    ∀ ts, (s.withPipelines ps).part x filter ts = s.part x filter ts
  | [] => rfl
  | t :: ts => by
    rw [part, part, part_withPipelines filter ts, view_withPipelines, Filter.keeps_withPipelines]

/-- Moving all tokens that a filter keeps does not look at pipelines. -/
theorem moveAll_withPipelines (source target : ZoneRef) (filter : Filter) :
    (s.withPipelines ps).moveAll x source target filter = s.moveAll x source target filter := by
  simp only [moveAll, part_withPipelines]
  rfl

/-- Drawing tokens does not look at pipelines. -/
theorem draw_withPipelines (source target : ZoneRef) (count : Expr) :
    (s.withPipelines ps).draw x source target count = s.draw x source target count := by
  rw [draw, view_withPipelines, Expr.evalInt_withPipelines]
  rfl

/-- Evaluating the props of a new token does not look at pipelines. -/
theorem newProps_withPipelines (type : TokenType) :
    ∀ es props, (s.withPipelines ps).newProps x type es props = s.newProps x type es props
  | [], _ => rfl
  | (name, value) :: es, props => by
    simp only [newProps, view_withPipelines, Expr.eval_withPipelines,
      newProps_withPipelines type es]

/-- Creating a token does not look at pipelines. -/
theorem createToken_withPipelines (type : String) (zone : ZoneRef) (props : Dict Expr) :
    (s.withPipelines ps).createToken x type zone props = s.createToken x type zone props := by
  simp only [createToken, newProps_withPipelines]
  rfl

/-- Setting a prop of a token does not look at pipelines. -/
theorem setTokenProp_withPipelines (token prop : String) (value : Expr) :
    (s.withPipelines ps).setTokenProp x token prop value = s.setTokenProp x token prop value := by
  rw [setTokenProp, view_withPipelines, Expr.eval_withPipelines]
  rfl

/-- Removing items one by one does not look at pipelines. -/
theorem removeItems_withPipelines (target : ZoneId) :
    ∀ items budget x, (s.withPipelines ps).removeItems target items budget x =
      s.removeItems target items budget x
  | _, 0, _ => by simp only [removeItems]
  | [], _ + 1, _ => rfl
  | item :: items, budget + 1, x => by
    simp only [removeItems, removeItems_withPipelines target items]
    rfl

/-- Removing from groups in turn does not look at pipelines. -/
theorem removeGroups_withPipelines :
    ∀ groups budget x,
      (s.withPipelines ps).removeGroups groups budget x = s.removeGroups groups budget x
  | _, 0, _ => by simp only [removeGroups]
  | [], _ + 1, _ => rfl
  | g :: groups, budget + 1, x => by
    simp only [removeGroups, removeGroups_withPipelines groups, removeItems_withPipelines,
      view_withPipelines, Query.eval_withPipelines]
    rfl

/-- Removing by priority does not look at pipelines. -/
theorem removeByPriority_withPipelines (budget : Expr) (groups : List PriorityGroup) :
    (s.withPipelines ps).removeByPriority x budget groups = s.removeByPriority x budget groups := by
  simp only [removeByPriority, removeGroups_withPipelines, view_withPipelines,
    Expr.evalInt_withPipelines]
  rfl

/-- Folding over items does not look at pipelines. -/
theorem foldItems_withPipelines (item acc : String) (next : Expr) :
    ∀ items value, (s.withPipelines ps).foldItems x item acc next items value =
      s.foldItems x item acc next items value
  | [], _ => rfl
  | i :: is, value => by
    have hnext := next.eval_withPipelines (((s.bind item i).bind acc value).view x) ps
    rw [foldItems, foldItems]
    simp only [foldItems_withPipelines item acc next is]
    exact congrArg (· >>= _) hnext

/-- Folding over a query does not look at pipelines. -/
theorem foldQuery_withPipelines (source : Query) (item acc : String) (initial next : Expr) :
    (s.withPipelines ps).foldQuery x source item acc initial next =
      s.foldQuery x source item acc initial next := by
  simp only [foldQuery, foldItems_withPipelines, view_withPipelines, Query.eval_withPipelines,
    Expr.eval_withPipelines]

/-- The limit of a loop does not depend on pipelines. -/
theorem loopLimit_withPipelines (limit : Option Expr) :
    (s.withPipelines ps).loopLimit x limit = s.loopLimit x limit := by
  cases limit with
  | none => rfl
  | some e =>
    rw [loopLimit, view_withPipelines, Expr.evalInt_withPipelines]
    rfl

/-- Drawing a number does not look at pipelines. -/
theorem roll_withPipelines (min max : Expr) :
    (s.withPipelines ps).roll x min max = s.roll x min max := by
  rw [roll, view_withPipelines, min.evalInt_withPipelines, max.evalInt_withPipelines]
  rfl

/-! ## Choices -/

/-- A choice of one does not look at pipelines. -/
theorem chooseOne_withPipelines (bind : String) (options : Query) :
    (s.withPipelines ps).chooseOne x bind options = s.chooseOne x bind options := by
  rw [chooseOne, view_withPipelines, Query.eval_withPipelines]
  rfl

/-- How many may be chosen does not depend on pipelines. -/
theorem bounds_withPipelines (c : Cardinality) (size : Nat) :
    (s.withPipelines ps).bounds x c size = s.bounds x c size := by
  simp only [bounds, view_withPipelines, Expr.evalInt_withPipelines]

/-- A choice of several does not look at pipelines. -/
theorem chooseN_withPipelines (bind : String) (options : Query) (c : Cardinality) :
    (s.withPipelines ps).chooseN x bind options c = s.chooseN x bind options c := by
  simp only [chooseN, view_withPipelines, Query.eval_withPipelines, bounds_withPipelines]
  rfl

end Site

/-! ## Runs -/

mutual

/-- An effect comes to the same. -/
theorem Effect.run_withPipelines (e : Effect) (s : Site) (ps : List Pipeline) (x : Session) :
    e.run (s.withPipelines ps) x = e.run s x := by
  cases e with
  | setVar target name value => exact congrArg (keepBindings s ∘ liftM) (s.setVar_withPipelines ..)
  | addVar target name delta => exact congrArg (keepBindings s ∘ liftM) (s.addVar_withPipelines ..)
  | moveAll source target filter => exact congrArg (keepBindings s) (s.moveAll_withPipelines ..)
  | draw source target count => exact congrArg (keepBindings s) (s.draw_withPipelines ..)
  | createToken type zone props =>
    exact congrArg (keepBindings s ∘ liftM) (s.createToken_withPipelines ..)
  | setTokenProp token prop value =>
    exact congrArg (keepBindings s) (s.setTokenProp_withPipelines ..)
  | setMarker space marker state => exact congrArg (keepBindings s) (s.setMarker_withPipelines ..)
  | ifThenElse when yes no =>
    have hyes := Effect.runAll_withPipelines yes (s.enter "then") ps 0 x
    have hno := Effect.runAll_withPipelines no (s.enter "else") ps 0 x
    rw [Effect.run, Effect.run, s.view_withPipelines, when.eval_withPipelines]
    exact bind_congr (fun holds => by cases holds <;> simp only [← hyes, ← hno] <;> rfl)
  | forEach bind source body limit =>
    rw [Effect.run, Effect.run, s.view_withPipelines, source.eval_withPipelines]
    refine bind_congr (fun items => ?_)
    rw [s.loopLimit_withPipelines]
    refine bind_congr (fun n => ?_)
    have hround (y : Session) (i : Value × Nat) :=
      Effect.runAll_withPipelines body (s.each bind i.1 i.2) ps 0 y
    simp only [← hround]
    rfl
  | letIn bind value body =>
    rw [Effect.run, Effect.run, s.view_withPipelines, value.eval_withPipelines]
    refine bind_congr (fun v => ?_)
    have hbody := Effect.runAll_withPipelines body ((s.bind bind v).enter "in") ps 0 x
    exact congrArg (· >>= _) hbody
  | reduce source item acc initial next result body =>
    rw [Effect.run, Effect.run, s.foldQuery_withPipelines]
    refine bind_congr (fun v => ?_)
    have hbody := Effect.runAll_withPipelines body ((s.bind result v).enter "in") ps 0 x
    exact congrArg (· >>= _) hbody
  | rollRandom bind min max body =>
    rw [Effect.run, Effect.run, s.roll_withPipelines]
    refine bind_congr (fun (n, y) => ?_)
    have hbody := Effect.runAll_withPipelines body ((s.bind bind (.int n)).enter "in") ps 0 y
    exact congrArg (· >>= _) hbody
  | removeByPriority budget groups countBind body =>
    rw [Effect.run, Effect.run, s.removeByPriority_withPipelines]
    refine bind_congr (fun (count, y) => ?_)
    cases countBind with
    | none => exact congrArg (· >>= _) (Effect.runAll_withPipelines body (s.enter "in") ps 0 y)
    | some name =>
      have hbody := Effect.runAll_withPipelines body
        ((s.bind name (.int (Int64.ofNat count))).enter "in") ps 0 y
      exact congrArg (· >>= _) hbody
  | chooseOne bind options => exact congrArg (· >>= _) (s.chooseOne_withPipelines ps x bind options)
  | chooseN bind options c => exact congrArg (· >>= _) (s.chooseN_withPipelines ps x bind options c)
  | _ => rfl

/-- Effects come to the same. -/
theorem Effect.runAll_withPipelines (es : List Effect) (s : Site) (ps : List Pipeline) (i : Nat)
    (x : Session) : Effect.runAll es (s.withPipelines ps) i x = Effect.runAll es s i x := by
  cases es with
  | nil => rfl
  | cons e es =>
    rw [Effect.runAll, Effect.runAll]
    refine bind_congr (fun y => ?_)
    have he := Effect.run_withPipelines e (s.entry i e) ps y
    refine (congrArg (· >>= _) he).trans (bind_congr (fun p => ?_))
    exact Effect.runAll_withPipelines es { s with bindings := p.2 } ps (i + 1) p.1

end

section

variable (setting : Setting) (ps : List Pipeline) (root : String) (b : Bindings)
  (effects : List Effect)

/-- A whole run comes to the same. -/
theorem Session.run_withPipelines (x : Session) :
    x.run (setting.withPipelines ps) root b effects = x.run setting root b effects := by
  have hrun := Effect.runAll_withPipelines effects { setting, path := root, bindings := b } ps 0 x
  exact congrArg (· >>= _) hrun

/-- Effects on a state come to the same whatever the pipelines of the game are. -/
theorem runEffects_withPipelines (s : State) :
    runEffects (setting.withPipelines ps) root b effects s =
      runEffects setting root b effects s := by
  rw [runEffects, runEffects, Session.run_withPipelines]

end

end Tabletop
