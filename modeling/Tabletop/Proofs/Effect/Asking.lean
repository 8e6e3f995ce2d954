import Tabletop.Proofs.Effect.Alteration
import Tabletop.Proofs.Expr.Firsts

/-!
# What runs of effects ask for

A run that is not faulty either comes to a session that it has altered step by step, or stops for a
selection.  The name under which it stops is free where the run began, so no selection is asked for
twice, and the options are told apart by their identities.

Main statements: `Effect.runAll_asks`, for effects that run one after the other, and
`Session.run_asks`, for a whole run.
-/

namespace Tabletop

open Relation (ReflTransGen)

/-! ## Steps of a run -/

/-- One step of a run: an operation is paid for, or the session is altered. -/
inductive Steps (s : Setting) : Session → Session → Prop where
  | spend {x : Session} (h : x.ops < s.maxOps.toNat) : Steps s x x.tick
  | alter {x y : Session} (h : Alters s x y) : Steps s x y

/-- Several steps of a run, or none. -/
abbrev Reaches (s : Setting) : Session → Session → Prop := ReflTransGen (Steps s)

/-- One step of a run as effects make it. -/
structure Proceeds (s : Setting) (x y : Session) : Prop where
  step : Steps s x y
  vouches : s.Vouches x y

/-- Several steps of a run as effects make it, or none. -/
abbrev Proceeded (s : Setting) : Session → Session → Prop := ReflTransGen (Proceeds s)

/-- A run as effects make it is a run: what it vouches for may be forgotten. -/
theorem Proceeded.reaches {s : Setting} {x y : Session} (h : Proceeded s x y) : Reaches s x y :=
  h.lift id (fun _ _ hstep => hstep.step)

/-- Alterations by effects are steps of a run as effects make it. -/
theorem Altered.proceeded {s : Setting} {x y : Session} (h : Altered s x y) : Proceeded s x y :=
  h.lift id (fun _ _ hstep => ⟨.alter hstep.alters, hstep.vouches⟩)

/-! ## Names -/

namespace Bindings

/-- Whatever is free in the first bindings is free in the second. -/
def Extends (b c : Bindings) : Prop := ∀ name, b.get? name = none → c.get? name = none

namespace Extends

/-- Bindings extend themselves. -/
theorem refl (b : Bindings) : b.Extends b := fun _ h => h

/-- Extensions of extensions are extensions. -/
theorem trans {a b c : Bindings} (hab : a.Extends b) (hbc : b.Extends c) : a.Extends c :=
  fun name h => hbc name (hab name h)

/-- Binding a name extends the bindings. -/
theorem bind (b : Bindings) (name : String) (x : Value) : (b.bind name x).Extends b := by
  intro other h
  simp only [get?, Bindings.bind, List.lookup_cons] at h
  split at h
  · cases h
  · exact h

/-- Binding what was selected, under both names of the decision, extends the bindings. -/
theorem bindChoice (b : Bindings) (bind name : String) (x : Value) :
    (b.bindChoice bind name x).Extends b := by
  unfold Bindings.bindChoice
  split
  · exact .bind b name x
  · exact (Extends.bind _ name x).trans (.bind b bind x)

end Extends

end Bindings

/-- The options of a decision are told apart by their identities. -/
structure Decision.Clear (d : Decision) : Prop where
  identified : Value.Identified d.domain
  nodup : (d.domain.filterMap Value.identity?).Nodup

/-! ## Attempts that ask for free names only -/

/-- An attempt that stops only for a selection whose name is free, and comes to what is
described. -/
def Asks {α : Type} (b : Bindings) (P : α → Prop) : Attempt α → Prop
  | .ok x => P x
  | .error (.pending d) => b.get? d.name = none ∧ d.Clear
  | .error (.fault _) => True
  | .error (.refused _ _) => True

/-- An attempt that asks for nothing asks only for what is free. -/
theorem Settled.asks {α : Type} {b : Bindings} {P : α → Prop} {a : Attempt α} (h : Settled P a) :
    Asks b P a := by
  cases a with
  | ok x => exact h
  | error e =>
    cases e with
    | fault f => trivial
    | pending d => exact absurd h id
    | refused name cause => trivial

namespace Asks

variable {α β : Type} {b : Bindings} {P : α → Prop} {Q : β → Prop}

/-- Doing nothing asks for nothing. -/
theorem pure {x : α} (h : P x) : Asks b P (Pure.pure x) := h

/-- Attempts that ask only for free names do so one after the other. -/
theorem bind {a : Attempt α} {f : α → Attempt β} (h : Asks b P a)
    (hf : ∀ x, P x → Asks b Q (f x)) : Asks b Q (a >>= f) := by
  cases a with
  | ok x => exact hf x h
  | error e =>
    cases e with
    | fault f => trivial
    | pending d => exact h
    | refused name cause => trivial

/-- A result asks for nothing. -/
theorem bindLift {r : Result α} {f : α → Attempt β} (hf : ∀ x, r = .ok x → Asks b Q (f x)) :
    Asks b Q (liftM r >>= f) :=
  .bind (Settled.lift (fun _ h => h)).asks hf

/-- What an asking attempt comes to may be described more loosely. -/
theorem mono {P' : α → Prop} {a : Attempt α} (h : Asks b P a) (hP : ∀ x, P x → P' x) :
    Asks b P' a := by
  cases a with
  | ok x => exact hP x h
  | error e => cases e <;> exact h

/-- What is free further in is free further out. -/
theorem outward {c : Bindings} {a : Attempt α} (h : Asks c P a) (hc : c.Extends b) :
    Asks b P a := by
  cases a with
  | ok x => exact h
  | error e =>
    cases e with
    | fault f => trivial
    | pending d => exact ⟨hc _ h.1, h.2⟩
    | refused name cause => trivial

/-- An attempt that depends on a test asks only for free names if both of its branches do. -/
theorem ite {c : Prop} [Decidable c] {a a' : Attempt α} (hpos : c → Asks b P a)
    (hneg : ¬c → Asks b P a') : Asks b P (if c then a else a') := by
  by_cases h : c
  · rw [if_pos h]
    exact hpos h
  · rw [if_neg h]
    exact hneg h

/-- A fold whose steps ask for free names only, and keep a property. -/
theorem foldlM {γ : Type} {f : α → γ → Attempt α} (hf : ∀ c x, P x → Asks b P (f x c)) :
    ∀ (l : List γ) {x : α}, P x → Asks b P (l.foldlM f x)
  | [], _, h => .pure h
  | c :: l, x, h => by
    rw [List.foldlM_cons]
    exact (hf c x h).bind (fun _ h => foldlM hf l h)

end Asks

namespace Site

variable (s : Site) (x : Session)

/-- Refusing a selection asks for nothing. -/
theorem refuse_asks {α : Type} {P : α → Prop} (name : String) (cause : ChoiceFault) :
    Asks s.bindings P (s.refuse name cause) := by
  unfold refuse
  split <;> trivial

/-- A selection that is missing has a free name. -/
theorem missing_asks {α : Type} {P : α → Prop} {d : Decision}
    (hfree : s.bindings.get? d.name = none)
    (hclear : d.Clear) : Asks s.bindings P (s.missing d) := by
  unfold missing
  split
  · trivial
  · exact ⟨hfree, hclear⟩

/-- A choice of one asks under a name that is free, and comes to bindings that have the selection on
top. -/
theorem chooseOne_asks (bind : String) (options : Query) :
    Asks s.bindings (fun b => b.Extends s.bindings) (s.chooseOne x bind options) := by
  refine .bindLift (fun name _ => .bindLift (fun domain hdomain => ?_))
  cases hname : s.bindings.get? name with
  | none => exact s.missing_asks hname ⟨Query.eval_identified hdomain, Query.eval_nodup hdomain⟩
  | some selected =>
    dsimp only
    split
    · exact s.refuse_asks _ _
    · exact .pure (.bindChoice _ _ _ _)

/-- A choice of several asks under a name that is free, and comes to bindings that have the
selection on top. -/
theorem chooseN_asks (bind : String) (options : Query) (c : Cardinality) :
    Asks s.bindings (fun b => b.Extends s.bindings) (s.chooseN x bind options c) := by
  refine .bindLift (fun name _ => .bindLift (fun domain hdomain => .bindLift (fun p _ => ?_)))
  refine .ite (fun _ => (Settled.fail _ _).asks) (fun _ => ?_)
  dsimp only
  cases hname : s.bindings.get? name with
  | none => exact s.missing_asks hname ⟨Query.eval_identified hdomain, Query.eval_nodup hdomain⟩
  | some selected =>
    cases selected with
    | scalar y => exact s.refuse_asks _ _
    | token id => exact s.refuse_asks _ _
    | array xs =>
      dsimp only
      split
      · exact s.refuse_asks _ _
      · exact .pure (.bindChoice _ _ _ _)

/-- Paying for an operation asks for nothing and is a step of a run. -/
theorem spend_settled : Settled (Proceeded s.setting x) (s.spend x) := by
  rcases s.spend_cases x with ⟨h, hspend⟩ | ⟨-, fault, hfault⟩
  · rw [hspend]
    exact .ok (.single ⟨.spend h, fun _ => .inl⟩)
  · rw [hfault]
    trivial

/-- The limit of a loop is found without asking. -/
theorem loopLimit_settled (limit : Option Expr) :
    Settled (fun _ => True) (s.loopLimit x limit) := by
  cases limit with
  | none => exact .pure trivial
  | some e =>
    refine .bind (.lift (fun _ _ => trivial)) (fun n _ => ?_)
    exact .ite (fun _ => .fail _ _) (fun _ => .pure trivial)

end Site

/-! ## Runs -/

/-- What a run from a session at a site comes to: a session that it reaches, and bindings that
extend those of the site. -/
abbrev Site.Arrives (s : Site) (x : Session) (p : Session × Bindings) : Prop :=
  Proceeded s.setting x p.1 ∧ p.2.Extends s.bindings

section

variable {s : Site} {x : Session}

/-- An effect that only alters the session comes to a session that is reached and to the bindings of
its site. -/
theorem keepBindings_asks {a : Attempt Session} (h : Settled (Altered s.setting x) a) :
    Asks s.bindings (s.Arrives x) (keepBindings s a) :=
  (h.bind (Q := s.Arrives x) (fun _ hy => .pure ⟨hy.proceeded, .refl _⟩)).asks

/-- A body whose bindings are forgotten at its end. -/
theorem forget_asks {y : Session} {b : Bindings} {a : Attempt (Session × Bindings)}
    (hy : Proceeded s.setting x y) (hb : b.Extends s.bindings)
    (h : Asks b (fun p => Proceeded s.setting y p.1 ∧ p.2.Extends b) a) :
    Asks s.bindings (s.Arrives x) (a >>= fun p => Pure.pure (p.1, s.bindings)) :=
  (h.outward hb).bind (fun _ hp => .pure ⟨hy.trans hp.1, .refl _⟩)

end

mutual

/-- An effect asks for free names only. -/
theorem Effect.run_asks (e : Effect) (s : Site) (x : Session) :
    Asks s.bindings (s.Arrives x) (e.run s x) := by
  cases e with
  | setVar target name value => exact keepBindings_asks (.lift (fun _ => s.setVar_altered x))
  | addVar target name delta => exact keepBindings_asks (.lift (fun _ => s.addVar_altered x))
  | moveToken token source target place =>
    exact keepBindings_asks (s.moveToken_altered x token source target place)
  | moveAll source target filter =>
    exact keepBindings_asks (s.moveAll_altered x source target filter)
  | moveTokenAdjacent token source target place =>
    exact keepBindings_asks (s.moveTokenAdjacent_altered x token source target place)
  | draw source target count => exact keepBindings_asks (s.draw_altered x source target count)
  | shuffle zone => exact keepBindings_asks (.lift (fun _ => s.shuffle_altered x))
  | createToken type zone props =>
    exact keepBindings_asks (.lift (fun _ => s.createToken_altered x))
  | destroyToken token => exact keepBindings_asks (s.destroyToken_altered x token)
  | setTokenProp token prop value =>
    exact keepBindings_asks (s.setTokenProp_altered x token prop value)
  | setMarker space marker state =>
    exact keepBindings_asks (s.setMarker_altered x space marker state)
  | ifThenElse when yes no =>
    rw [Effect.run]
    refine .bindLift (fun holds _ => ?_)
    split
    · exact forget_asks .refl (.refl _) (Effect.runAll_asks yes (s.enter "then") 0 x)
    · exact forget_asks .refl (.refl _) (Effect.runAll_asks no (s.enter "else") 0 x)
  | forEach bind source body limit =>
    rw [Effect.run]
    refine .bindLift (fun items _ => ?_)
    refine (s.loopLimit_settled x limit).asks.bind (fun limit _ => ?_)
    refine Asks.bind (P := Proceeded s.setting x) ?_ (fun y hy => .pure ⟨hy, .refl _⟩)
    refine Asks.foldlM (fun i y hy => ?_) _ .refl
    have hbody := Effect.runAll_asks body (s.each bind i.1 i.2) 0 y
    exact (hbody.outward (.bind _ _ _)).bind (fun p hp => .pure (hy.trans hp.1))
  | letIn bind value body =>
    rw [Effect.run]
    refine .bindLift (fun value _ => ?_)
    exact forget_asks .refl (.bind _ _ _)
      (Effect.runAll_asks body ((s.bind bind value).enter "in") 0 x)
  | reduce source item acc initial next result body =>
    rw [Effect.run]
    refine .bindLift (fun value _ => ?_)
    exact forget_asks .refl (.bind _ _ _)
      (Effect.runAll_asks body ((s.bind result value).enter "in") 0 x)
  | rollRandom bind min max body =>
    rw [Effect.run]
    refine (s.roll_altered x min max).asks.bind (fun p hp => ?_)
    exact forget_asks hp.proceeded (.bind _ _ _)
      (Effect.runAll_asks body ((s.bind bind (.int p.1)).enter "in") 0 p.2)
  | removeByPriority budget groups countBind body =>
    rw [Effect.run]
    refine (s.removeByPriority_altered x budget groups).asks.bind (fun p hp => ?_)
    cases countBind with
    | none =>
      exact forget_asks hp.proceeded (.refl _) (Effect.runAll_asks body (s.enter "in") 0 p.2)
    | some name =>
      exact forget_asks hp.proceeded (.bind _ _ _)
        (Effect.runAll_asks body ((s.bind name (.int (Int64.ofNat p.1))).enter "in") 0 p.2)
  | chooseOne bind options =>
    rw [Effect.run]
    exact (s.chooseOne_asks x bind options).bind (fun _ hb => .pure ⟨.refl, hb⟩)
  | chooseN bind options cardinality =>
    rw [Effect.run]
    exact (s.chooseN_asks x bind options cardinality).bind (fun _ hb => .pure ⟨.refl, hb⟩)
  | grantFreeOperation offer => exact keepBindings_asks (s.grantFreeOperation_altered x offer)
  | setEligibilityOverride seat eligible =>
    exact keepBindings_asks (s.setEligibilityOverride_altered x seat eligible)
  | pushInterruptPhase phase => exact keepBindings_asks (s.pushInterruptPhase_altered x phase)

/-- Effects that run one after the other ask for free names only. -/
theorem Effect.runAll_asks (es : List Effect) (s : Site) (i : Nat) (x : Session) :
    Asks s.bindings (s.Arrives x) (Effect.runAll es s i x) := by
  cases es with
  | nil =>
    rw [Effect.runAll]
    exact Asks.pure ⟨.refl, .refl _⟩
  | cons e es =>
    rw [Effect.runAll]
    refine ((s.entry i e).spend_settled x).asks.bind (fun y hy => ?_)
    refine (Effect.run_asks e (s.entry i e) y).bind (fun p hp => ?_)
    have hrest := Effect.runAll_asks es { s with bindings := p.2 } (i + 1) p.1
    refine (hrest.outward hp.2).mono (fun q hq => ?_)
    exact ⟨(hy.trans hp.1).trans hq.1, hq.2.trans hp.2⟩

end

/-- A whole run asks for free names only. -/
theorem Session.run_asks (x : Session) (setting : Setting) (root : String) (b : Bindings)
    (effects : List Effect) : Asks b (Proceeded setting x) (x.run setting root b effects) :=
  (Effect.runAll_asks effects { setting, path := root, bindings := b } 0 x).bind
    (fun _ hp => .pure hp.1)

/-- Effects that run where no decision may be left open proceed to the session that they come to. -/
theorem proceeded_of_runEffects {setting : Setting} {root : String} {b : Bindings}
    {effects : List Effect} {s : State} {x : Session}
    (h : runEffects setting root b effects s = .ok x) : Proceeded setting { state := s } x := by
  have hasks := Session.run_asks { state := s } setting root b effects
  rw [mapError_eq_ok h] at hasks
  exact hasks

/-- The session that effects come to is reached from the state in which they ran. -/
theorem reaches_of_runEffects {setting : Setting} {root : String} {b : Bindings}
    {effects : List Effect} {s : State} {x : Session}
    (h : runEffects setting root b effects s = .ok x) : Reaches setting { state := s } x :=
  (proceeded_of_runEffects h).reaches

end Tabletop
