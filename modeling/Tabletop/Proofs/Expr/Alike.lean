import Tabletop.Play.Outcome

/-!
# What evaluation reads of a game and its state

Values, conditions and queries are read off the variables, the tokens and the markers of a state,
its phase, its turn and its active seat.  They do not show where the turn order stands, what has
been used up or which phases are suspended.  So two states that look alike have the same outcome,
whatever their books say.

Of a definition, evaluation does not read the pipelines.

Main statement: `Game.outcome?_alike`.
-/

namespace Tabletop

/-! ## States that look alike -/

/-- Two states show the same to an evaluation. -/
structure State.Alike (s t : State) : Prop where
  globalVars : t.globalVars = s.globalVars
  seatVars : t.seatVars = s.seatVars
  zoneVars : t.zoneVars = s.zoneVars
  store : t.store = s.store
  markers : t.markers = s.markers
  phase : t.phase = s.phase
  active : t.active = s.active
  turn : t.turn = s.turn

namespace State.Alike

variable {s t : State}

/-- States that show the same have as many seats. -/
theorem seatCount (h : s.Alike t) : t.seatCount = s.seatCount := congrArg PerSeat.size h.seatVars

/-- States that show the same have the same variables of the game. -/
theorem globalVar? (h : s.Alike t) (name : String) : t.globalVar? name = s.globalVar? name := by
  rw [State.globalVar?, State.globalVar?, h.globalVars]

/-- States that show the same have the same variables of each seat. -/
theorem seatVar? (h : s.Alike t) (seat : Seat) (name : String) :
    t.seatVar? seat name = s.seatVar? seat name := by
  rw [State.seatVar?, State.seatVar?, h.seatVars]

/-- States that show the same have the same variables of each zone. -/
theorem zoneVar? (h : s.Alike t) (zone : ZoneId) (name : String) :
    t.zoneVar? zone name = s.zoneVar? zone name := by
  rw [State.zoneVar?, State.zoneVar?, h.zoneVars]

/-- States that show the same have the same markers. -/
theorem marker (h : s.Alike t) (d : Definition) (space : ZoneId) (name : String) :
    t.marker d space name = s.marker d space name := by
  rw [State.marker, State.marker, h.markers]

end State.Alike

/-- A state shows what it shows. -/
theorem State.Alike.refl (s : State) : s.Alike s := ⟨rfl, rfl, rfl, rfl, rfl, rfl, rfl, rfl⟩

/-! ## Views -/

/-- The game with other pipelines. -/
def Game.withPipelines (g : Game) (ps : List Pipeline) : Game where
  definition := { g.definition with pipelines := ps }
  adjacency := g.adjacency
  tables := g.tables
  triggers := g.triggers
  adjacency_eq := g.adjacency_eq
  tables_eq := g.tables_eq
  triggers_eq := g.triggers_eq

/-- The view of another state. -/
def View.inState (v : View) (t : State) : View := { v with state := t }

/-- The view of another state in the game with other pipelines. -/
def View.replaced (v : View) (ps : List Pipeline) (t : State) : View :=
  { v with game := v.game.withPipelines ps, state := t }

/-- The state of a view that was moved to another state is that one. -/
theorem View.state_inState (v : View) (t : State) : (v.inState t).state = t := rfl

/-- The state of a view that was moved to another state and game is that one. -/
theorem View.state_replaced (v : View) (ps : List Pipeline) (t : State) :
    (v.replaced ps t).state = t := rfl

/-! ## References -/

variable {ps : List Pipeline}

section resolve

variable {v : View} {t : State}

/-- Which seat a reference means depends on the active seat and on the number of seats. -/
theorem SeatRef.resolve_inState (r : SeatRef) (hactive : t.active = v.state.active)
    (hcount : t.seatCount = v.state.seatCount) : r.resolve (v.inState t) = r.resolve v := by
  cases r with
  | active => exact congrArg Except.ok hactive
  | actor => rfl
  | id seat => simp only [resolve, View.state_inState, hcount]
  | binding name =>
    simp only [resolve, View.state_inState, hcount]
    rfl

/-- The id of a zone depends on who is active and how many seats there are, and on names. -/
theorem ZoneRef.id?_inState (r : ZoneRef) (hactive : t.active = v.state.active)
    (hcount : t.seatCount = v.state.seatCount) : r.id? (v.inState t) = r.id? v := by
  cases r with
  | id zone => rfl
  | binding name => rfl
  | owned base owner => simp only [id?, owner.resolve_inState hactive hcount]

/-- Which zone a reference means depends on the zones too. -/
theorem ZoneRef.resolve_inState (r : ZoneRef) (hactive : t.active = v.state.active)
    (hcount : t.seatCount = v.state.seatCount)
    (hzones : ∀ zone, t.store.hasZone zone = v.state.store.hasZone zone) :
    r.resolve (v.inState t) = r.resolve v := by
  simp only [resolve, r.id?_inState hactive hcount, View.state_inState, hzones]

/-- A reference to a seat means the same seat where states show the same. -/
theorem SeatRef.resolve_alike (r : SeatRef) (h : v.state.Alike t) :
    r.resolve (v.replaced ps t) = r.resolve v :=
  r.resolve_inState h.active h.seatCount

/-- A reference to a zone means the same zone where states show the same. -/
theorem ZoneRef.resolve_alike (r : ZoneRef) (h : v.state.Alike t) :
    r.resolve (v.replaced ps t) = r.resolve v :=
  r.resolve_inState h.active h.seatCount fun zone => by rw [h.store]

end resolve

/-! ## Evaluation -/

mutual

/-- A reference has the same value. -/
theorem Ref.eval_alike (r : Ref) {v : View} {t : State} (h : v.state.Alike t) :
    r.eval (v.replaced ps t) = r.eval v := by
  cases r with
  | binding name => rfl
  | globalVar name => simp only [Ref.eval, View.state_replaced, h.globalVar?]
  | seatVar seat name =>
    simp only [Ref.eval, seat.resolve_alike h]
    simp only [View.state_replaced, h.seatVar?]
  | zoneVar zone name =>
    simp only [Ref.eval, zone.resolve_alike h]
    simp only [View.state_replaced, h.zoneVar?]
  | tokenProp token prop =>
    simp only [Ref.eval, View.state_replaced, h.store]
    rfl
  | constant name => rfl
  | activeSeat => simp only [Ref.eval, View.state_replaced, h.active]
  | actor => rfl
  | turnCount => simp only [Ref.eval, View.state_replaced, h.turn]
  | currentPhase => simp only [Ref.eval, View.state_replaced, h.phase]
  | tokenCount zone =>
    simp only [Ref.eval, zone.resolve_alike h]
    simp only [View.state_replaced, h.store]
  | marker space name =>
    simp only [Ref.eval, space.resolve_alike h]
    simp only [View.state_replaced, h.marker]
    rfl
  | tableEntry table key field =>
    rw [Ref.eval, Ref.eval, key.eval_alike h]
    rfl

/-- An expression has the same value. -/
theorem Expr.eval_alike (e : Expr) {v : View} {t : State} (h : v.state.Alike t) :
    e.eval (v.replaced ps t) = e.eval v := by
  cases e with
  | int n => rfl
  | bool b => rfl
  | str s => rfl
  | ref r => exact r.eval_alike h
  | arith op left right =>
    rw [Expr.eval, Expr.eval, left.eval_alike h, right.eval_alike h]
  | aggregate op query bind value =>
    rw [Expr.eval, Expr.eval, query.collect_alike h]
    cases value with
    | none => rfl
    | some e =>
      have hitem : ∀ item, e.eval ((v.replaced ps t).bind bind item) = e.eval (v.bind bind item) :=
        fun item => e.eval_alike (v := v.bind bind item) h
      simp only [hitem]
  | ifThenElse when yes no =>
    rw [Expr.eval, Expr.eval, when.eval_alike h, yes.eval_alike h, no.eval_alike h]

/-- A condition holds alike. -/
theorem Cond.eval_alike (c : Cond) {v : View} {t : State} (h : v.state.Alike t) :
    c.eval (v.replaced ps t) = c.eval v := by
  cases c with
  | const b => rfl
  | and parts => exact Cond.evalAll_alike parts h
  | or parts => exact Cond.evalAny_alike parts h
  | not part => rw [Cond.eval, Cond.eval, part.eval_alike h]
  | compare op left right => rw [Cond.eval, Cond.eval, left.eval_alike h, right.eval_alike h]
  | mem item set => rw [Cond.eval, Cond.eval, item.eval_alike h, set.collect_alike h]
  | adjacent source target =>
    rw [Cond.eval, Cond.eval, source.resolve_alike h, target.resolve_alike h]
    rfl
  | tokenInZone token zone =>
    rw [Cond.eval, Cond.eval, zone.resolve_alike h]
    simp only [View.state_replaced, h.store]
    rfl
  | truthy value => rw [Cond.eval, Cond.eval, value.eval_alike h]

/-- Conditions hold together alike. -/
theorem Cond.evalAll_alike (cs : List Cond) {v : View} {t : State} (h : v.state.Alike t) :
    Cond.evalAll cs (v.replaced ps t) = Cond.evalAll cs v := by
  cases cs with
  | nil => rfl
  | cons c cs => rw [Cond.evalAll, Cond.evalAll, c.eval_alike h, Cond.evalAll_alike cs h]

/-- One of several conditions holds alike. -/
theorem Cond.evalAny_alike (cs : List Cond) {v : View} {t : State} (h : v.state.Alike t) :
    Cond.evalAny cs (v.replaced ps t) = Cond.evalAny cs v := by
  cases cs with
  | nil => rfl
  | cons c cs => rw [Cond.evalAny, Cond.evalAny, c.eval_alike h, Cond.evalAny_alike cs h]

/-- A filter keeps the same. -/
theorem Filter.keeps_alike (f : Filter) {v : View} {t : State} (h : v.state.Alike t)
    (item : Value) :
    f.keeps (v.replaced ps t) item = f.keeps v item := by
  cases f with
  | all => rfl
  | satisfying bind condition =>
    rw [Filter.keeps, Filter.keeps]
    exact condition.eval_alike (v := v.bind bind item) h

/-- A query finds the same. -/
theorem Query.collect_alike (q : Query) {v : View} {t : State} (h : v.state.Alike t) :
    q.collect (v.replaced ps t) = q.collect v := by
  cases q with
  | tokensInZone zone filter =>
    rw [Query.collect, Query.collect, zone.resolve_alike h]
    simp only [filter.keeps_alike h]
    simp only [View.state_replaced, h.store]
  | zones category filter =>
    rw [Query.collect, Query.collect]
    simp only [filter.keeps_alike h]
    rfl
  | adjacentZones zone filter =>
    rw [Query.collect, Query.collect, zone.resolve_alike h]
    simp only [filter.keeps_alike h]
    rfl
  | intRange min max => rw [Query.collect, Query.collect, min.eval_alike h, max.eval_alike h]
  | enums names => rfl
  | seats =>
    rw [Query.collect, Query.collect]
    simp only [View.state_replaced, h.seatCount]
  | binding name => rfl
  | tableColumn table field => rfl
  | concat parts =>
    rw [Query.collect, Query.collect]
    exact Query.collectAll_alike parts h

/-- Queries find the same. -/
theorem Query.collectAll_alike (qs : List Query) {v : View} {t : State} (h : v.state.Alike t) :
    Query.collectAll qs (v.replaced ps t) = Query.collectAll qs v := by
  cases qs with
  | nil => rfl
  | cons q qs =>
    rw [Query.collectAll, Query.collectAll, q.collect_alike h, Query.collectAll_alike qs h]

end

/-! ## Outcomes -/

section outcome

variable {v : View} {t : State}

/-- An integer expression has the same value where states show the same. -/
theorem Expr.evalInt_alike (e : Expr) (h : v.state.Alike t) :
    e.evalInt (v.replaced ps t) = e.evalInt v := by
  rw [evalInt, evalInt, e.eval_alike h]

/-- The scores of seats are the same where states show the same. -/
theorem Ending.scores_alike (value : Expr) (h : v.state.Alike t) :
    ∀ seats, scores value (v.replaced ps t) seats = scores value v seats
  | [] => rfl
  | seat :: seats => by
    let w : View := { v.ofSeat seat with actor := seat }
    have hseat : value.evalInt (w.replaced ps t) = value.evalInt w := value.evalInt_alike h
    rw [scores, scores, scores_alike value h seats]
    exact congrArg (· >>= _) hseat

/-- An ending declares the same outcome where states show the same. -/
theorem Ending.outcome_alike (e : Ending) (h : v.state.Alike t) :
    e.outcome (v.replaced ps t) = e.outcome v := by
  cases e with
  | draw => rfl
  | lossAll => rfl
  | win seat => simp only [outcome, seat.resolve_alike h]
  | score value ascending =>
    simp only [outcome, scores_alike value h]
    simp only [View.state_replaced, h.seatCount]

/-- The first end condition that holds is the same where states show the same. -/
theorem EndCondition.firstOutcome?_alike (h : v.state.Alike t) :
    ∀ (es : List EndCondition) (i : Nat),
      firstOutcome? (v.replaced ps t) i es = firstOutcome? v i es
  | [], _ => rfl
  | e :: es, i => by
    rw [firstOutcome?, firstOutcome?, e.when.eval_alike h, e.result.outcome_alike h,
      firstOutcome?_alike h es]

/-- The margins of a victory are the same where states show the same. -/
theorem Victory.marginScores_alike (h : v.state.Alike t) :
    ∀ ms, marginScores (v.replaced ps t) ms = marginScores v ms
  | [] => rfl
  | m :: ms => by
    have hmargin :
        m.value.evalInt ((v.ofSeat m.seat).replaced ps t) = m.value.evalInt (v.ofSeat m.seat) :=
      m.value.evalInt_alike h
    rw [marginScores, marginScores, marginScores_alike h ms]
    exact congrArg (fun margin => inPredicate (.margin m.seat) margin >>= _) hmargin

/-- The first checkpoint that holds is the same where states show the same. -/
theorem Victory.firstOutcome?_alike (y : Victory) (h : v.state.Alike t) :
    ∀ cs, y.firstOutcome? (v.replaced ps t) cs = y.firstOutcome? v cs
  | [] => rfl
  | c :: cs => by
    rw [firstOutcome?, firstOutcome?, c.when.eval_alike h, marginScores_alike h,
      firstOutcome?_alike y h cs]
    simp only [View.state_replaced, h.active]

end outcome

/-! ## Other pipelines -/

/-- The view in the game with other pipelines. -/
def View.withPipelines (v : View) (ps : List Pipeline) : View := v.replaced ps v.state

section

variable (v : View) (ps : List Pipeline)

/-- An expression has the same value whatever the pipelines are. -/
theorem Expr.eval_withPipelines (e : Expr) : e.eval (v.withPipelines ps) = e.eval v :=
  e.eval_alike (.refl v.state)

/-- An integer expression has the same value whatever the pipelines are. -/
theorem Expr.evalInt_withPipelines (e : Expr) : e.evalInt (v.withPipelines ps) = e.evalInt v :=
  e.evalInt_alike (.refl v.state)

/-- A condition holds or not whatever the pipelines are. -/
theorem Cond.eval_withPipelines (c : Cond) : c.eval (v.withPipelines ps) = c.eval v :=
  c.eval_alike (.refl v.state)

/-- A filter keeps the same items whatever the pipelines are. -/
theorem Filter.keeps_withPipelines (f : Filter) (item : Value) :
    f.keeps (v.withPipelines ps) item = f.keeps v item :=
  f.keeps_alike (.refl v.state) item

/-- A query finds the same whatever the pipelines are. -/
theorem Query.eval_withPipelines (q : Query) : q.eval (v.withPipelines ps) = q.eval v := by
  have hcollect : q.collect (v.withPipelines ps) = q.collect v := q.collect_alike (.refl v.state)
  rw [Query.eval, Query.eval, hcollect]

/-- A predicate of the definition holds or not whatever the pipelines are. -/
theorem holdsIn_withPipelines (name : Predicate) (condition : Option Cond) :
    holdsIn name condition (v.withPipelines ps) = holdsIn name condition v := by
  cases condition with
  | none => rfl
  | some c => rw [holdsIn, holdsIn, c.eval_withPipelines]

end

/-- States that look alike have the same outcome, whatever the pipelines are. -/
theorem Game.outcome?_withPipelines {s t : State} (g : Game) (ps : List Pipeline) (h : s.Alike t) :
    (g.withPipelines ps).outcome? t = g.outcome? s := by
  have hview : View.ofState (g.withPipelines ps) t = (View.ofState g s).replaced ps t := by
    rw [View.ofState, View.ofState, View.replaced, h.active]
  have hsame : (View.ofState g s).state.Alike t := h
  rw [outcome?, outcome?, hview, EndCondition.firstOutcome?_alike hsame]
  simp only [Victory.firstOutcome?_alike _ hsame]
  rfl

/-- States that look alike have the same outcome. -/
theorem Game.outcome?_alike {s t : State} (g : Game) (h : s.Alike t) :
    g.outcome? t = g.outcome? s :=
  g.outcome?_withPipelines g.definition.pipelines h

end Tabletop
