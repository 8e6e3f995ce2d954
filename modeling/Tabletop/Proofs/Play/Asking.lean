import Tabletop.Proofs.Effect.Asking
import Tabletop.Proofs.Paired.Resolve

/-!
# What resolving a move asks for

A move is asked only for selections that it lacks: its host for those of the host, its special
activity for those of the special activity.  A move that is resolved has been carried out step by
step from the state in which it is made.

Main statement: `Rules.resolve_asks`.
-/

namespace Tabletop

open Relation (ReflTransGen)

/-! ## Runs under rules -/

/-- A setting of a game under its limits. -/
structure Setting.Under (s : Setting) (r : Rules) : Prop where
  game : s.game = r.game
  maxOps : s.maxOps = r.limits.maxOps
  tracing : s.tracing = r.limits.tracing

namespace Rules

variable (r : Rules)

/-- One step of effects under the rules, for whomever they run. -/
def Moves (x y : Session) : Prop := ∃ s : Setting, s.Under r ∧ Steps s x y

/-- Several steps of effects under the rules, or none. -/
abbrev Runs : Session → Session → Prop := ReflTransGen r.Moves

/-- The setting of an effect that may not ask is one under the rules. -/
theorem under_strict (actor : Seat) (cause : Cause) (action : Option ActionId) :
    (r.strict actor cause action).Under r := ⟨rfl, rfl, rfl⟩

/-- The setting of a plan is one under the rules. -/
theorem under_setting (p : Plan) (cause : Cause) : (p.setting r cause).Under r := ⟨rfl, rfl, rfl⟩

end Rules

/-- A run of effects in a setting under the rules is one under the rules. -/
theorem Reaches.runs {s : Setting} {r : Rules} (hs : s.Under r) {x y : Session}
    (h : Reaches s x y) : r.Runs x y :=
  h.lift id (fun _ _ hstep => ⟨s, hs, hstep⟩)

/-! ## Checks that stop for what is missing -/

/-- A check that stops only for requests of a kind, and comes to what is described. -/
def Proper {α : Type} (asked : Request → Prop) (P : α → Prop) : Check α → Prop
  | .ok x => P x
  | .error (.pending q) => asked q ∧ q.decision.Clear
  | .error (.refused _) => True
  | .error (.fault _) => True

namespace Proper

variable {α β : Type} {asked : Request → Prop} {P : α → Prop} {Q : β → Prop}

/-- Doing nothing stops for no request. -/
theorem pure {x : α} (h : P x) : Proper asked P (Pure.pure x) := h

/-- A refusal stops for no request. -/
theorem refuse (refusal : Refusal) (action : ActionId) :
    Proper asked P (Tabletop.refuse refusal action) := trivial

/-- A check that is passed or refused stops for no request, and when it is passed, it holds. -/
theorem ensure (holds : Bool) (refusal : Refusal) (action : ActionId) :
    Proper asked (fun _ => holds = true) (Tabletop.ensure holds refusal action) := by
  unfold Tabletop.ensure
  split
  · rename_i hholds
    exact hholds
  · exact .refuse refusal action

/-- A request of a kind, for a decision with clear options, is one that may be made. -/
theorem pending {q : Request} (hq : asked q) (hclear : q.decision.Clear) :
    Proper asked P (throw (Stop.pending q)) := ⟨hq, hclear⟩

/-- Proper checks one after the other are proper. -/
theorem bind {a : Check α} {f : α → Check β} (h : Proper asked P a)
    (hf : ∀ x, P x → Proper asked Q (f x)) : Proper asked Q (a >>= f) := by
  cases a with
  | ok x => exact hf x h
  | error st =>
    cases st with
    | fault f => trivial
    | pending q => exact h
    | refused rejection => trivial

/-- An evaluation stops for no request. -/
theorem lift {r : Result α} (h : ∀ x, r = .ok x → P x) : Proper asked P (liftM r : Check α) := by
  cases r with
  | error f => exact trivial
  | ok x => exact h x rfl

/-- A result asks for nothing. -/
theorem bindLift {r : Result α} {f : α → Check β} (hf : ∀ x, r = .ok x → Proper asked Q (f x)) :
    Proper asked Q (liftM r >>= f) :=
  .bind (.lift (fun _ h => h)) hf

/-- Requests and results may be described more loosely. -/
theorem mono {asked' : Request → Prop} {P' : α → Prop} {a : Check α} (h : Proper asked P a)
    (hasked : ∀ q, asked q → asked' q) (hP : ∀ x, P x → P' x) : Proper asked' P' a := by
  cases a with
  | ok x => exact hP x h
  | error st =>
    cases st with
    | fault f => trivial
    | pending q => exact ⟨hasked q h.1, h.2⟩
    | refused rejection => trivial

/-- What a proper check comes to is as described. -/
theorem of_ok {a : Check α} (h : Proper asked P a) {x : α} (hx : a = .ok x) : P x := by
  rw [hx] at h
  exact h

/-- What asks for nothing does not stop for a selection. -/
theorem bind_eq_pending {a : Check α} {f : α → Check β} {q : Request}
    (ha : Proper (fun _ => False) P a) (h : a >>= f = .error (.pending q)) :
    ∃ x, a = .ok x ∧ f x = .error (.pending q) := by
  rcases bind_eq_error h with h | h
  · subst h
    exact absurd ha.1 id
  · exact h

end Proper

/-- A check that is passed holds. -/
theorem ensure_eq_ok {holds : Bool} {refusal : Refusal} {action : ActionId}
    (h : ensure holds refusal action = .ok ()) : holds = true := by
  cases holds with
  | true => rfl
  | false => cases h

/-- An evaluation that a check gets through has that value. -/
theorem liftM_eq_ok {α : Type} {a : Result α} {x : α} (h : (liftM a : Check α) = .ok x) :
    a = .ok x := by
  cases a with
  | error f => cases h
  | ok y =>
    cases h
    rfl

/-- A selection of a move, or of its special activity, that the move lacks. -/
def Move.Lacks (m : Move) (special : Bool) (q : Request) : Prop :=
  q.special = special ∧ m.params.get? q.decision.name = none

/-! ## Planning -/

namespace Plan

variable {m : Move} {special : Bool} {v : View}

/-- The domain of a param lists options that are told apart by their identities. -/
theorem domain_clear {p : Param} {values : List Value} (h : domain p v = .ok values) :
    (p.decision values).Clear := by
  unfold domain inPredicate at h
  cases hq : p.domain.eval v with
  | error f =>
    rw [hq] at h
    cases h
  | ok xs =>
    rw [hq] at h
    cases h
    exact ⟨Query.eval_identified hq, Query.eval_nodup hq⟩

/-- A selection for a declared param that a move, or its special activity, lacks. -/
def Declared (a : Action) (m : Move) (special : Bool) (q : Request) : Prop :=
  m.Lacks special q ∧ ∃ p ∈ a.params, p.name = q.decision.name

/-- The check of a param that a selector reads asks for a declared param that is lacking. -/
theorem checkSelected_asks (a : Action) (sel : SeatSelector) :
    Proper (Declared a m special) (fun _ => True) (checkSelected a m special v sel) := by
  unfold checkSelected
  cases sel with
  | active => trivial
  | any => trivial
  | allOther => trivial
  | id seat => trivial
  | ids seats => trivial
  | binding name =>
    dsimp only
    cases hp : a.param? name with
    | none => trivial
    | some p =>
      have hname : p.name = name := by simpa using List.find?_some hp
      have hmem : p ∈ a.params := List.mem_of_find?_eq_some hp
      refine .bindLift (fun values hvalues => ?_)
      cases hm : m.params.get? name with
      | none =>
        have hlacks : m.params.get? p.name = none := hname ▸ hm
        exact .pending ⟨⟨rfl, hlacks⟩, p, hmem, rfl⟩ (domain_clear hvalues)
      | some chosen =>
        dsimp only
        split
        · exact .refuse _ _
        · exact .pure trivial

/-- The check of declared params asks for those that are lacking. -/
theorem checkParams_asks (a : Action) :
    ∀ {ps : List Param}, ps ⊆ a.params →
      Proper (Declared a m special) (fun _ => True) (checkParams a m special v ps)
  | [], _ => trivial
  | p :: ps, h => by
    obtain ⟨hp, hps⟩ := List.cons_subset.1 h
    rw [checkParams]
    refine .bindLift (fun values hvalues => ?_)
    cases hm : m.params.get? p.name with
    | none => exact .pending ⟨⟨rfl, hm⟩, p, hp, rfl⟩ (domain_clear hvalues)
    | some chosen =>
      cases chosen with
      | many xs => exact .refuse _ _
      | one x =>
        dsimp only
        split
        · exact checkParams_asks a hps
        · exact .refuse _ _

/-- Finding actors and executor asks for declared params that are lacking. -/
theorem checkSeats_asks (a : Action) :
    Proper (Declared a m special) (fun _ => True) (checkSeats a m special v) := by
  refine (checkSelected_asks a a.actor).bind (fun _ _ => ?_)
  refine (checkSelected_asks a a.executor).bind (fun _ _ => ?_)
  refine .bindLift (fun actors _ => .bindLift (fun executor _ => ?_))
  exact (Proper.ensure _ _ _).bind (fun _ _ => .pure trivial)

/-- Whether an action is available is told without asking. -/
theorem checkAvailable_asks {asked : Request → Prop} (a : Action) (s : State) :
    Proper asked (fun _ => True) (checkAvailable a s) := by
  refine (Proper.ensure _ _ _).bind (fun _ _ => ?_)
  split
  · exact .refuse _ _
  · exact .pure trivial

/-- The pipeline of an action is found without asking. -/
theorem checkPipeline_asks {asked : Request → Prop} (a : Action) (free : Bool) :
    Proper asked (fun _ => True) (checkPipeline a free v) := by
  refine .bindLift (fun dispatch _ => ?_)
  cases dispatch with
  | plain => exact .pure trivial
  | unmatched => exact .refuse _ _
  | matched p =>
    refine .bindLift (fun payment _ => ?_)
    cases payment with
    | error refusal => exact .refuse _ _
    | ok payment => exact .pure trivial

/-- What a plan takes over from a move. -/
structure For (p : Plan) (m : Move) (a : Action) (special : Bool) : Prop where
  action : p.action = a
  bindings : p.bindings = .ofParams m.params
  special : p.special = special

/-- Planning asks for declared params that are lacking, and comes to a plan for the move. -/
theorem make_asks (g : Game) (s : State) (m : Move) (a : Action) (free special : Bool) :
    Proper (Declared a m special) (fun p => p.For m a special) (make g s m a free special) := by
  refine (checkSeats_asks a).bind (fun executor _ => ?_)
  refine (checkAvailable_asks a s).bind (fun _ _ => ?_)
  refine (checkParams_asks a (List.Subset.refl _)).bind (fun _ _ => .bindLift (fun holds _ => ?_))
  refine (Proper.ensure _ _ _).bind (fun _ _ => ?_)
  exact (checkPipeline_asks a free).bind (fun _ _ => .pure ⟨rfl, rfl, rfl⟩)

/-! ## Stages -/

variable {p : Plan} {a : Action}

/-- The effects of a plan ask for selections that the move lacks, and alter the session under the
rules. -/
theorem runEffects_asks (hp : p.For m a special) (r : Rules) (cause : Cause) (root : String)
    (effects : List Effect) (x : Performance) :
    Proper (m.Lacks special) (fun y => r.Runs x.session y.session)
      (p.runEffects r cause root effects x) := by
  have hrun :=
    Session.run_asks x.session (p.setting r cause) (p.pathStart ++ root) p.bindings effects
  unfold runEffects
  cases h : x.session.run (p.setting r cause) (p.pathStart ++ root) p.bindings effects with
  | ok y =>
    rw [h] at hrun
    exact hrun.reaches.runs (r.under_setting p cause)
  | error e =>
    rw [h] at hrun
    cases e with
    | fault f => trivial
    | refused name cause => trivial
    | pending d =>
      obtain ⟨hfree, hclear⟩ := hrun
      rw [hp.bindings, Bindings.get?_ofParams, Option.map_eq_none_iff] at hfree
      exact ⟨⟨hp.special, hfree⟩, hclear⟩

/-- Paying for a plan asks for selections that the move lacks, and alters the session under the
rules. -/
theorem pay_asks (hp : p.For m a special) (r : Rules) (x : Performance) :
    Proper (m.Lacks special) (fun y => r.Runs x.session y.session) (p.pay r x) := by
  unfold pay
  split
  · exact runEffects_asks hp r _ _ _ x
  · exact ReflTransGen.refl

/-- The stages of a plan ask for selections that the move lacks, if what comes after each stage
does. -/
theorem runStages_asks {asked : Request → Prop} (hp : p.For m a special)
    (hasked : ∀ q, m.Lacks special q → asked q) (r : Rules)
    {after : Nat → Performance → Check Performance}
    (hafter : ∀ i x, Proper asked (fun y => r.Runs x.session y.session) (after i x)) :
    ∀ (stages : List Stage) (i : Nat) (x : Performance),
      Proper asked (fun y => r.Runs x.session y.session) (p.runStages r after i stages x)
  | [], _, _ => ReflTransGen.refl
  | stage :: stages, i, x => by
    refine ((runEffects_asks hp r _ _ _ x).mono hasked (fun _ h => h)).bind (fun y hy => ?_)
    refine (hafter i y).bind (fun z hz => ?_)
    refine (runStages_asks hp hasked r hafter stages (i + 1) z).mono (fun _ h => h) ?_
    exact fun _ h => (hy.trans hz).trans h

/-- Carrying out a special activity as a whole asks for selections that it lacks. -/
theorem runWhole_asks (hp : p.For m a special) (r : Rules) (x : Performance) :
    Proper (m.Lacks special) (fun y => r.Runs x.session y.session) (p.runWhole r x) := by
  refine (pay_asks hp r x).bind (fun y hy => ?_)
  have hstages :=
    runStages_asks hp (fun _ h => h) r (fun _ _ => .pure ReflTransGen.refl) p.stages 0 y
  exact hstages.mono (fun _ h => h) (fun _ h => hy.trans h)

end Plan

/-! ## Hosts and special activities -/

/-- What a move is asked for: a selection that it lacks, or that its special activity lacks. -/
def Move.Wants (m : Move) (q : Request) : Prop :=
  m.Lacks false q ∨ ∃ c, m.compound = some c ∧ c.special.Lacks true q

/-- A special activity that has been planned for a move, if it has one. -/
def Move.Accompanied (m : Move) (special : Option (Accompaniment Plan)) : Prop :=
  ∀ c, special = some c → ∃ d a, m.compound = some d ∧ c.special.For d.special a true

namespace Rules

variable (r : Rules) (s : State) (m : Move)

/-- The check of a compound asks for nothing. -/
theorem checkCompound_asks {asked : Request → Prop} :
    Proper asked (fun _ => True) (r.checkCompound s m) := by
  unfold checkCompound
  split
  · rename_i c _
    refine (Proper.ensure _ _ _).bind (fun _ _ => ?_)
    refine (Proper.ensure _ _ _).bind (fun _ _ => ?_)
    refine .bindLift (fun dispatch _ => ?_)
    cases dispatch with
    | plain => exact .pure trivial
    | unmatched => exact .pure trivial
    | matched p =>
      refine (Proper.ensure _ _ _).bind (fun _ _ => ?_)
      split
      · exact .refuse _ _
      · exact .pure trivial
  · trivial

/-- The check of a grant asks for nothing. -/
theorem checkGrant_asks {asked : Request → Prop} (a : Action) :
    Proper asked (fun _ => True) (r.checkGrant s m a) := by
  unfold checkGrant
  split
  · refine .bindLift (fun covered _ => ?_)
    cases covered with
    | error denial => exact .refuse _ _
    | ok grant => exact .pure trivial
  · exact (Proper.ensure _ _ _).bind (fun _ _ => .pure trivial)

/-- The check of the time of a special activity asks for nothing. -/
theorem checkTiming_asks {asked : Request → Prop} (c : Accompaniment Move) (stages : Nat)
    (host : ActionId) : Proper asked (fun _ => True) (c.checkTiming stages host) := by
  unfold Accompaniment.checkTiming
  split
  · exact (Proper.ensure _ _ _).mono (fun _ h => h) (fun _ _ => trivial)
  · exact .refuse _ _
  · exact .refuse _ _
  · trivial

/-- Planning a special activity asks for what the move wants, and comes to a plan for it. -/
theorem planCompound_asks (stages : Nat) :
    Proper m.Wants m.Accompanied (r.planCompound s m stages) := by
  unfold planCompound
  split
  · rename_i c hc
    refine Proper.bind (P := fun d => ∃ a, d.special.For c.special a true) ?_ ?_
    · refine (checkTiming_asks c stages m.action).bind (fun _ _ => ?_)
      split
      · exact .refuse _ _
      · rename_i a _
        refine ((Plan.make_asks r.game s c.special a m.free true).mono ?_ (fun _ h => h)).bind ?_
        · exact fun _ hq => .inr ⟨c, hc, hq.1⟩
        · exact fun p hp => .pure ⟨a, hp⟩
    · rintro d ⟨a, hd⟩
      refine .pure (fun e he => ?_)
      cases he
      exact ⟨c, a, hc, hd⟩
  · exact fun c hc => by cases hc

/-- A special activity at a place of its host asks for what the move wants. -/
theorem sideline_asks {special : Option (Accompaniment Plan)} (hspecial : m.Accompanied special)
    (timing : Timing) (afterStage : Option Nat) (x : Performance) :
    Proper m.Wants (fun y => r.Runs x.session y.session)
      (r.sideline special timing afterStage x) := by
  unfold sideline
  split
  · rename_i c
    obtain ⟨d, a, hd, hc⟩ := hspecial c rfl
    unfold Accompaniment.runAt
    split
    · exact (Plan.runWhole_asks hc r x).mono (fun _ hq => .inr ⟨d, hd, hq⟩) (fun _ h => h)
    · exact ReflTransGen.refl
  · exact ReflTransGen.refl

/-- Carrying out a move asks for what it wants, and alters the session under the rules. -/
theorem perform_asks {host : Plan} {a : Action} {special : Option (Accompaniment Plan)}
    (hhost : host.For m a false) (hspecial : m.Accompanied special) (x : Performance) :
    Proper m.Wants (fun y => r.Runs x.session y.session) (r.perform host special x) := by
  have hside := r.sideline_asks m hspecial
  refine ((Plan.pay_asks hhost r x).mono (fun _ => .inl) (fun _ h => h)).bind (fun y hy => ?_)
  refine (hside .before none y).bind (fun z hz => ?_)
  refine (Plan.runStages_asks hhost (fun _ => .inl) r (fun i => hside .during (some i))
    host.stages 0 z).bind (fun z' hz' => ?_)
  refine (hside .after none z').mono (fun _ h => h) (fun _ h => ?_)
  exact ((hy.trans hz).trans hz').trans h

/-- What a resolution has come to. -/
structure Resolved (x : Resolution) : Prop where
  declared : r.definition.action? m.action = some x.action
  runs : r.Runs { state := s } x.session

/-- A move is asked only for what it lacks. -/
theorem resolve_asks : Proper m.Wants (r.Resolved s m) (r.resolve s m) := by
  refine .bindLift (fun outcome _ => ?_)
  refine (Proper.ensure _ _ _).bind (fun _ _ => ?_)
  cases ha : r.definition.action? m.action with
  | none => exact .refuse _ _
  | some a =>
    refine (r.checkCompound_asks s m).bind (fun _ _ => ?_)
    refine (r.checkGrant_asks s m a).bind (fun grant _ => ?_)
    have hmake := Plan.make_asks r.game s m a m.free false
    refine (hmake.mono (fun _ hq => .inl hq.1) (fun _ h => h)).bind (fun host hhost => ?_)
    refine (r.planCompound_asks s m host.stages.length).bind (fun special hspecial => ?_)
    refine (r.perform_asks m hhost hspecial _).bind (fun x hx => .pure ⟨?_, hx⟩)
    rw [ha, hhost.action]

/-! ## Resolved moves -/

section

variable {r : Rules} {s : State} {m : Move} {x : Resolution}

/-- A move is resolved exactly if the game goes on, the move passes every check, and it is carried
out as planned. -/
theorem resolve_eq_ok_iff :
    r.resolve s m = .ok x ↔
      ∃ a grant host special y, r.game.outcome? s = .ok none ∧
        r.definition.action? m.action = some a ∧ r.checkCompound s m = .ok () ∧
        r.checkGrant s m a = .ok grant ∧ Plan.make r.game s m a m.free false = .ok host ∧
        r.planCompound s m host.stages.length = .ok special ∧
        r.perform host special { session := { state := s } } = .ok y ∧
        x = {
          session := y.session
          action := host.action
          executor := host.executor
          special := special.map (fun c => (c.special.action, c.special.executor))
          grant
          warnings := y.warnings } := by
  constructor
  · intro h
    obtain ⟨outcome, houtcome, h⟩ := bind_eq_ok h
    have hgoes : r.game.outcome? s = .ok outcome := by
      cases hgame : r.game.outcome? s with
      | error fault =>
        rw [hgame] at houtcome
        cases houtcome
      | ok o =>
        rw [hgame] at houtcome
        cases houtcome
        rfl
    cases outcome with
    | some o => cases h
    | none =>
      obtain ⟨-, -, h⟩ := bind_eq_ok h
      cases ha : r.definition.action? m.action with
      | none =>
        rw [ha] at h
        cases h
      | some a =>
        rw [ha] at h
        obtain ⟨⟨⟩, hcompound, h⟩ := bind_eq_ok h
        obtain ⟨grant, hgrant, h⟩ := bind_eq_ok h
        obtain ⟨host, hhost, h⟩ := bind_eq_ok h
        obtain ⟨special, hspecial, h⟩ := bind_eq_ok h
        obtain ⟨y, hy, h⟩ := bind_eq_ok h
        cases h
        exact ⟨a, grant, host, special, y, hgoes, rfl, hcompound, hgrant, hhost, hspecial, hy, rfl⟩
  · rintro ⟨a, grant, host, special, y, hgoes, ha, hcompound, hgrant, hhost, hspecial, hy, rfl⟩
    have houtcome : (liftM (r.game.outcome? s) : Check (Option Outcome)) = .ok none := by
      rw [hgoes]
      rfl
    have hresolve : r.resolveAs s m a = _ :=
      bind_ok hcompound (bind_ok hgrant (bind_ok hhost (bind_ok hspecial (bind_ok hy rfl))))
    refine bind_ok houtcome ?_
    rw [ha]
    exact hresolve

end

/-! ## Moves without a special activity -/

section

variable {r : Rules} {s : State} {m : Move}

/-- How a move without a special activity has been resolved. -/
theorem resolve_plain_eq_ok (hm : m.compound = none) {x : Resolution}
    (h : r.resolve s m = .ok x) :
    ∃ a host y, r.definition.action? m.action = some a ∧
      Plan.make r.game s m a m.free false = .ok host ∧
      r.perform host none { session := { state := s } } = .ok y ∧ y.session = x.session := by
  obtain ⟨a, grant, host, special, y, -, ha, -, -, hhost, hspecial, hy, rfl⟩ :=
    resolve_eq_ok_iff.1 h
  unfold planCompound at hspecial
  rw [hm] at hspecial
  cases hspecial
  exact ⟨a, host, y, ha, hhost, hy, rfl⟩

/-- How a move without a special activity has been stopped for a selection. -/
theorem resolve_plain_eq_pending (hm : m.compound = none) {a : Action}
    (ha : r.definition.action? m.action = some a) {q : Request}
    (h : r.resolve s m = .error (.pending q)) :
    Plan.make r.game s m a m.free false = .error (.pending q) ∨
      ∃ host, Plan.make r.game s m a m.free false = .ok host ∧
        r.perform host none { session := { state := s } } = .error (.pending q) := by
  obtain ⟨outcome, -, h⟩ :=
    Proper.bind_eq_pending (.lift (P := fun _ => True) (fun _ _ => trivial)) h
  obtain ⟨-, -, h⟩ := Proper.bind_eq_pending (.ensure _ _ _) h
  rw [ha] at h
  obtain ⟨-, -, h⟩ := (r.checkCompound_asks s m).bind_eq_pending h
  obtain ⟨grant, -, h⟩ := (r.checkGrant_asks s m a).bind_eq_pending h
  rcases bind_eq_error h with h | ⟨host, hhost, h⟩
  · exact .inl h
  · refine .inr ⟨host, hhost, ?_⟩
    unfold planCompound at h
    rw [hm] at h
    rcases bind_eq_error (α := Performance) h with h | ⟨y, -, h⟩
    · exact h
    · cases h

end

end Rules

end Tabletop
