import Tabletop.Proofs.Effect.Faults
import Tabletop.Proofs.Play.Faults
import Tabletop.Proofs.Trigger.Order

/-!
# A reference for cascades

The dispatcher recurses on the number of levels that are left and looks triggers up by kind.  The
reference in this file does neither.  It goes through a stack of hearings, the one under way on top:
an event, the depth at which it lies and the triggers that have yet to hear of it, all of them at
first and in firing order.  A trigger that hears of an event lets it pass or fires, and the events
that a firing raises are heard one level deeper before anything else.  The reference knows no
deepest level, so nothing keeps it from going on for ever.

The bound is a statement about the reference: where it would fire a trigger one level below the
deepest, the dispatcher fails.  Until then they agree.  The reference takes one path at most, as
each of its steps is determined, so that every result of the dispatcher can be read off the
reference and conversely.

Main statements: `Rules.dispatch_eq_iff`, `Rules.dispatch_tooDeep_iff`, `Cascade.not_endless`.
-/

namespace Tabletop

open Relation (ReflTransGen)

/-! ## What a trigger makes of an event -/

namespace Trigger

variable {t : Trigger} {g : Game} {e : Event} {s : State}

/-- In what a trigger evaluates its conditions. -/
def view (g : Game) (e : Event) (s : State) : View where
  game := g
  state := s
  bindings := e.bindings
  actor := actor e s

/-- A trigger fires: its pattern accepts the event, and both of its conditions hold. -/
structure Fires (t : Trigger) (g : Game) (e : Event) (s : State) : Prop where
  accepted : t.pattern.accepted e = true
  matching : holdsIn (.triggerMatch t.id) t.matching (view g e s) = .ok true
  when : holdsIn (.triggerWhen t.id) t.when (view g e s) = .ok true

/-- A trigger lets an event pass: its pattern does not accept the event, or one of its conditions
does not hold. -/
inductive LetsPass (t : Trigger) (g : Game) (e : Event) (s : State) : Prop where
  | pattern (accepted : t.pattern.accepted e = false)
  | matching (accepted : t.pattern.accepted e = true)
      (matching : holdsIn (.triggerMatch t.id) t.matching (view g e s) = .ok false)
  | when (accepted : t.pattern.accepted e = true)
      (matching : holdsIn (.triggerMatch t.id) t.matching (view g e s) = .ok true)
      (when : holdsIn (.triggerWhen t.id) t.when (view g e s) = .ok false)

/-- A condition of a trigger whose pattern accepts the event cannot be evaluated. -/
inductive Breaks (t : Trigger) (g : Game) (e : Event) (s : State) (fault : Fault) : Prop where
  | matching (accepted : t.pattern.accepted e = true)
      (matching : holdsIn (.triggerMatch t.id) t.matching (view g e s) = .error fault)
  | when (accepted : t.pattern.accepted e = true)
      (matching : holdsIn (.triggerMatch t.id) t.matching (view g e s) = .ok true)
      (when : holdsIn (.triggerWhen t.id) t.when (view g e s) = .error fault)

/-- A trigger whose pattern accepts an event fires if both of its conditions hold, tested in
order. -/
theorem fires_of_accepted (h : t.pattern.accepted e = true) :
    t.fires g e s = (do
      if ← holdsIn (.triggerMatch t.id) t.matching (view g e s) then
        holdsIn (.triggerWhen t.id) t.when (view g e s)
      else return false) := by
  rw [fires, if_pos h]
  rfl

/-- A trigger that fires by the reference is found to fire. -/
theorem Fires.eq (h : t.Fires g e s) : t.fires g e s = .ok true := by
  rw [fires_of_accepted h.accepted, h.matching]
  exact h.when

/-- A trigger that lets an event pass by the reference is found not to fire. -/
theorem LetsPass.eq (h : t.LetsPass g e s) : t.fires g e s = .ok false := by
  cases h with
  | pattern accepted =>
    rw [fires, if_neg (by simp [accepted])]
    rfl
  | matching accepted matching =>
    rw [fires_of_accepted accepted, matching]
    rfl
  | when accepted matching hwhen =>
    rw [fires_of_accepted accepted, matching]
    exact hwhen

/-- A trigger whose condition cannot be evaluated by the reference is found to be at fault. -/
theorem Breaks.eq {fault : Fault} (h : t.Breaks g e s fault) : t.fires g e s = .error fault := by
  cases h with
  | matching accepted matching =>
    rw [fires_of_accepted accepted, matching]
    rfl
  | when accepted matching hwhen =>
    rw [fires_of_accepted accepted, matching]
    exact hwhen

/-- All that a trigger can make of an event. -/
theorem fires_or_passes_or_breaks (t : Trigger) (g : Game) (e : Event) (s : State) :
    t.Fires g e s ∨ t.LetsPass g e s ∨ ∃ fault, t.Breaks g e s fault := by
  cases accepted : t.pattern.accepted e with
  | false => exact .inr (.inl (.pattern accepted))
  | true =>
    cases matching : holdsIn (.triggerMatch t.id) t.matching (view g e s) with
    | error fault => exact .inr (.inr ⟨fault, .matching accepted matching⟩)
    | ok holds =>
      cases holds with
      | false => exact .inr (.inl (.matching accepted matching))
      | true =>
        cases hwhen : holdsIn (.triggerWhen t.id) t.when (view g e s) with
        | error fault => exact .inr (.inr ⟨fault, .when accepted matching hwhen⟩)
        | ok holds =>
          cases holds with
          | false => exact .inr (.inl (.when accepted matching hwhen))
          | true => exact .inl ⟨accepted, matching, hwhen⟩

end Trigger

/-! ## The reference -/

/-- The deepest level at which triggers may fire. -/
abbrev Rules.deepest (r : Rules) : Nat := r.definition.metadata.maxTriggerDepth.toNat

/-- The depth of a level, by the number of levels that are left. -/
theorem Rules.depthAt_eq {r : Rules} {left depth : Nat} (h : left + depth = r.deepest + 1) :
    r.depthAt left = .ofNat depth := by
  have hlevels : r.definition.metadata.maxTriggerDepth.toNat + 1 - left = depth :=
    Nat.sub_eq_of_eq_add ((Nat.add_comm depth left).trans h).symm
  rw [Rules.depthAt, hlevels]

/-- An event that is being heard: how deep it lies, and the triggers that have yet to hear of it. -/
structure Hearing where
  event : Event
  depth : Nat
  waiting : List Trigger

/-- A cascade in progress: its hearings, the one under way first, and how far it has come. -/
structure Cascade where
  hearings : List Hearing
  progress : Progress

namespace Cascade

variable {r : Rules} {c c' c₁ c₂ : Cascade} {e : Event} {depth : Nat}

/-- Hearings of events at a depth, by all triggers of a definition. -/
def hear (r : Rules) (depth : Nat) (events : List Event) : List Hearing :=
  events.map (fun e => ⟨e, depth, r.definition.line⟩)

/-- One step of the reference. -/
inductive Step (r : Rules) : Cascade → Cascade → Prop where
  /-- All triggers have heard of the event. -/
  | close {e : Event} {depth : Nat} {hs : List Hearing} {p : Progress} :
      Step r ⟨⟨e, depth, []⟩ :: hs, p⟩ ⟨hs, p⟩
  /-- The next trigger lets the event pass. -/
  | pass {e : Event} {depth : Nat} {t : Trigger} {ts : List Trigger} {hs : List Hearing}
      {p : Progress} (hpass : t.LetsPass r.game e p.state) :
      Step r ⟨⟨e, depth, t :: ts⟩ :: hs, p⟩ ⟨⟨e, depth, ts⟩ :: hs, p⟩
  /-- The next trigger fires, and the events that it raises are heard before anything else. -/
  | fire {e : Event} {depth : Nat} {t : Trigger} {ts : List Trigger} {hs : List Hearing}
      {p q : Progress} {events : List Event} (hfires : t.Fires r.game e p.state)
      (hfire : t.fire r (.ofNat depth) e p = .ok (q, events)) :
      Step r ⟨⟨e, depth, t :: ts⟩ :: hs, p⟩ ⟨hear r (depth + 1) events ++ ⟨e, depth, ts⟩ :: hs, q⟩

/-- The reference is about to let a trigger fire at a depth. -/
inductive FiresAt (r : Rules) (depth : Nat) (e : Event) : Cascade → Prop where
  | mk {t : Trigger} {ts : List Trigger} {hs : List Hearing} {p : Progress}
      (hfires : t.Fires r.game e p.state) : FiresAt r depth e ⟨⟨e, depth, t :: ts⟩ :: hs, p⟩

/-- The reference fails: a condition cannot be evaluated, or the effects of a firing cannot be
run. -/
inductive Fails (r : Rules) : Cascade → Breakdown → Prop where
  | condition {e : Event} {depth : Nat} {t : Trigger} {ts : List Trigger} {hs : List Hearing}
      {p : Progress} {fault : Fault} (hbreaks : t.Breaks r.game e p.state fault) :
      Fails r ⟨⟨e, depth, t :: ts⟩ :: hs, p⟩ ⟨fault, p.journal⟩
  | effects {e : Event} {depth : Nat} {t : Trigger} {ts : List Trigger} {hs : List Hearing}
      {p : Progress} {b : Breakdown} (hfires : t.Fires r.game e p.state)
      (hfire : t.fire r (.ofNat depth) e p = .error b) :
      Fails r ⟨⟨e, depth, t :: ts⟩ :: hs, p⟩ b

/-- The reference is about to let a trigger fire one level below the deepest. -/
def TooDeep (r : Rules) (e : Event) (c : Cascade) : Prop := c.FiresAt r (r.deepest + 1) e

/-- What the reference comes to where it stops, if it may not fire below the deepest level. -/
inductive Ends (r : Rules) : Cascade → Tracked Progress → Prop where
  | done {p : Progress} : Ends r ⟨[], p⟩ (.ok p)
  | fails {c : Cascade} {b : Breakdown} (hlevel : ∀ e, ¬ c.TooDeep r e) (hfails : c.Fails r b) :
      Ends r c (.error b)
  | tooDeep {c : Cascade} {e : Event} (hdeep : c.TooDeep r e) :
      Ends r c (.error
        ⟨.cascadeDepth r.definition.metadata.maxTriggerDepth e, c.progress.journal⟩)

/-- A step of the reference in which no trigger fires one level below the deepest. -/
def Within (r : Rules) (c c' : Cascade) : Prop := c.Step r c' ∧ ∀ e, ¬ c.TooDeep r e

/-! ## One path at most -/

/-- The reference takes at most one step from where it is. -/
theorem Step.unique (h₁ : c.Step r c₁) (h₂ : c.Step r c₂) : c₁ = c₂ := by
  cases h₁ with
  | close =>
    cases h₂
    rfl
  | pass hpass =>
    cases h₂ with
    | pass => rfl
    | fire hfires => cases hpass.eq.symm.trans hfires.eq
  | fire hfires hfire =>
    cases h₂ with
    | pass hpass => cases hfires.eq.symm.trans hpass.eq
    | fire _ hfire' =>
      cases hfire.symm.trans hfire'
      rfl

/-- Where the reference fails it does not go on. -/
theorem Fails.not_step {b : Breakdown} (h : c.Fails r b) : ¬ c.Step r c' := by
  intro hstep
  cases h with
  | condition hbreaks =>
    cases hstep with
    | pass hpass => cases hbreaks.eq.symm.trans hpass.eq
    | fire hfires => cases hbreaks.eq.symm.trans hfires.eq
  | effects hfires hfire =>
    cases hstep with
    | pass hpass => cases hfires.eq.symm.trans hpass.eq
    | fire _ hfire' => cases hfire.symm.trans hfire'

/-- The reference fails in at most one way. -/
theorem Fails.unique {b₁ b₂ : Breakdown} (h₁ : c.Fails r b₁) (h₂ : c.Fails r b₂) : b₁ = b₂ := by
  cases h₁ with
  | condition hbreaks =>
    cases h₂ with
    | condition hbreaks' =>
      cases hbreaks.eq.symm.trans hbreaks'.eq
      rfl
    | effects hfires => cases hbreaks.eq.symm.trans hfires.eq
  | effects hfires hfire =>
    cases h₂ with
    | condition hbreaks => cases hfires.eq.symm.trans hbreaks.eq
    | effects _ hfire' =>
      cases hfire.symm.trans hfire'
      rfl

/-- Where the reference stops it does not go on. -/
theorem Ends.not_within {out : Tracked Progress} (h : c.Ends r out) : ¬ Within r c c' := by
  rintro ⟨hstep, hlevel⟩
  cases h with
  | done => cases hstep
  | fails _ hfails => exact hfails.not_step hstep
  | tooDeep hdeep => exact hlevel _ hdeep

/-- The reference ends in at most one way. -/
theorem Ends.unique {out₁ out₂ : Tracked Progress} (h₁ : c.Ends r out₁) (h₂ : c.Ends r out₂) :
    out₁ = out₂ := by
  cases h₁ with
  | done =>
    cases h₂ with
    | done => rfl
    | fails _ hfails => cases hfails
    | tooDeep hdeep => cases hdeep
  | fails hlevel hfails =>
    cases h₂ with
    | done => cases hfails
    | fails _ hfails' => rw [hfails.unique hfails']
    | tooDeep hdeep => exact absurd hdeep (hlevel _)
  | tooDeep hdeep =>
    cases h₂ with
    | done => cases hdeep
    | fails hlevel _ => exact absurd hdeep (hlevel _)
    | tooDeep hdeep' =>
      cases hdeep
      cases hdeep'
      rfl

/-- Two paths from one place that stop come to the same. -/
theorem eq_of_ends {out₁ out₂ : Tracked Progress} (hpath₁ : ReflTransGen (Within r) c c₁)
    (hends₁ : c₁.Ends r out₁) (hpath₂ : ReflTransGen (Within r) c c₂) (hends₂ : c₂.Ends r out₂) :
    out₁ = out₂ := by
  induction hpath₁ using ReflTransGen.head_induction_on with
  | refl =>
    cases hpath₂.cases_head with
    | inl heq =>
      subst heq
      exact hends₁.unique hends₂
    | inr hstep =>
      obtain ⟨_, hwithin, -⟩ := hstep
      exact absurd hwithin hends₁.not_within
  | head hwithin _ ih =>
    cases hpath₂.cases_head with
    | inl heq =>
      subst heq
      exact absurd hwithin hends₂.not_within
    | inr hstep =>
      obtain ⟨_, hwithin', hrest⟩ := hstep
      obtain rfl := hwithin.1.unique hwithin'.1
      exact ih hrest

/-- From where it stops at some point, the reference cannot go on for ever. -/
theorem not_endless {out : Tracked Progress} (hpath : ReflTransGen (Within r) c c')
    (hends : c'.Ends r out) (run : Nat → Cascade) (hstart : run 0 = c) :
    ¬ ∀ n, Within r (run n) (run (n + 1)) := by
  induction hpath using ReflTransGen.head_induction_on generalizing run with
  | refl =>
    intro hrun
    have hwithin := hrun 0
    rw [hstart] at hwithin
    exact hends.not_within hwithin
  | head hwithin _ ih =>
    intro hrun
    have hfirst := hrun 0
    rw [hstart] at hfirst
    exact ih (fun n => run (n + 1)) (hfirst.1.unique hwithin.1) (fun n => hrun (n + 1))

/-- If the reference would ever fire a trigger one level below the deepest, there is a first
time. -/
theorem exists_first_tooDeep (hpath : ReflTransGen (Step r) c c') (hdeep : c'.TooDeep r e) :
    ∃ c₁ e₁, ReflTransGen (Within r) c c₁ ∧ c₁.TooDeep r e₁ := by
  induction hpath using ReflTransGen.head_induction_on with
  | refl => exact ⟨c', e, .refl, hdeep⟩
  | @head c₂ c₃ hstep _ ih =>
    by_cases hlevel : ∃ e₁, c₂.TooDeep r e₁
    · obtain ⟨e₁, hdeep⟩ := hlevel
      exact ⟨c₂, e₁, .refl, hdeep⟩
    · obtain ⟨c₁, e₁, hpath, hdeep⟩ := ih
      exact ⟨c₁, e₁, .head ⟨hstep, fun e h => hlevel ⟨e, h⟩⟩ hpath, hdeep⟩

/-! ## The dispatcher follows the reference -/

/-- The reference gets from a place to a result, which leaves some hearings still to go if it is a
success. -/
def Leads (r : Rules) (c : Cascade) (hs : List Hearing) : Tracked Progress → Prop
  | .ok p => ReflTransGen (Within r) c ⟨hs, p⟩
  | .error b => ∃ c', ReflTransGen (Within r) c c' ∧ c'.Ends r (.error b)

variable {hs hs' : List Hearing} {p : Progress} {out : Tracked Progress}

/-- A step that may be taken leads to what the rest leads to. -/
theorem Leads.head (h : Within r c c') (hrest : c'.Leads r hs out) : c.Leads r hs out := by
  cases out with
  | ok p => exact ReflTransGen.head h hrest
  | error b =>
    obtain ⟨c₁, hpath, hends⟩ := hrest
    exact ⟨c₁, .head h hpath, hends⟩

/-- What leads to a result goes on with what follows it. -/
theorem Leads.bind {f : Progress → Tracked Progress} (h : c.Leads r hs out)
    (hrest : ∀ p, Leads r ⟨hs, p⟩ hs' (f p)) : c.Leads r hs' (out >>= f) := by
  cases out with
  | error b => exact h
  | ok p =>
    show c.Leads r hs' (f p)
    have hp := hrest p
    cases hf : f p with
    | ok q =>
      rw [hf] at hp
      exact ReflTransGen.trans h hp
    | error b =>
      rw [hf] at hp
      obtain ⟨c₁, hpath, hends⟩ := hp
      exact ⟨c₁, ReflTransGen.trans h hpath, hends⟩

/-- Events that are put to the triggers one after the other are heard one after the other. -/
theorem leads_events {next : Event → Progress → Tracked Progress}
    (hnext : ∀ e p hs, Leads r ⟨⟨e, depth, r.definition.line⟩ :: hs, p⟩ hs (next e p)) :
    ∀ (events : List Event) (p : Progress),
      Leads r ⟨hear r depth events ++ hs, p⟩ hs (events.foldlM (fun p e => next e p) p)
  | [], p => ReflTransGen.refl
  | e :: events, p => by
    rw [List.foldlM_cons]
    exact (hnext e p _).bind (leads_events hnext events)

/-- A trigger above the deepest level, or at it, reacts as in the reference, if what follows a
firing does. -/
theorem leads_react {next : Event → Progress → Tracked Progress}
    (hdepth : depth ≤ r.deepest)
    (hnext : ∀ e p hs, Leads r ⟨⟨e, depth + 1, r.definition.line⟩ :: hs, p⟩ hs (next e p))
    (t : Trigger) (ts : List Trigger) (e : Event) (p : Progress) :
    Leads r ⟨⟨e, depth, t :: ts⟩ :: hs, p⟩ (⟨e, depth, ts⟩ :: hs)
      (t.react r (.ofNat depth) (some next) e p) := by
  have hlevel : ∀ e', ¬ TooDeep r e' ⟨⟨e, depth, t :: ts⟩ :: hs, p⟩ := by
    intro e' hdeep
    cases hdeep
    omega
  unfold Trigger.react
  rcases t.fires_or_passes_or_breaks r.game e p.state with hfires | hpass | ⟨fault, hbreaks⟩
  · rw [hfires.eq]
    show Leads r _ _ (t.fire r (.ofNat depth) e p >>= _)
    cases hfire : t.fire r (.ofNat depth) e p with
    | error b => exact ⟨_, .refl, .fails hlevel (.effects hfires hfire)⟩
    | ok fired => exact .head ⟨.fire hfires hfire, hlevel⟩ (leads_events hnext fired.2 fired.1)
  · rw [hpass.eq]
    exact ReflTransGen.single ⟨.pass hpass, hlevel⟩
  · rw [hbreaks.eq]
    exact ⟨_, .refl, .fails hlevel (.condition hbreaks)⟩

/-- One level below the deepest a trigger that would fire is where the reference stops. -/
theorem leads_react_below (hdepth : depth = r.deepest + 1)
    (d : UInt32) (t : Trigger) (ts : List Trigger) (e : Event) (p : Progress) :
    Leads r ⟨⟨e, depth, t :: ts⟩ :: hs, p⟩ (⟨e, depth, ts⟩ :: hs) (t.react r d none e p) := by
  subst hdepth
  have hlevel (hfires : ¬ t.Fires r.game e p.state) (e' : Event) : ¬ TooDeep r e'
      ⟨⟨e, r.deepest + 1, t :: ts⟩ :: hs, p⟩ := by
    intro hdeep
    cases hdeep with
    | mk h => exact hfires h
  unfold Trigger.react
  rcases t.fires_or_passes_or_breaks r.game e p.state with hfires | hpass | ⟨fault, hbreaks⟩
  · rw [hfires.eq]
    exact ⟨_, .refl, .tooDeep (.mk hfires)⟩
  · rw [hpass.eq]
    refine ReflTransGen.single ⟨.pass hpass, hlevel fun hfires => ?_⟩
    cases hpass.eq.symm.trans hfires.eq
  · rw [hbreaks.eq]
    refine ⟨_, .refl, .fails (hlevel fun hfires => ?_) (.condition hbreaks)⟩
    cases hbreaks.eq.symm.trans hfires.eq

/-- Triggers that react as in the reference hear of an event one after the other. -/
theorem leads_triggers {f : Progress → Trigger → Tracked Progress}
    (hreact : ∀ t ts p, Leads r ⟨⟨e, depth, t :: ts⟩ :: hs, p⟩ (⟨e, depth, ts⟩ :: hs) (f p t)) :
    ∀ (ts : List Trigger) (p : Progress), Leads r ⟨⟨e, depth, ts⟩ :: hs, p⟩ hs (ts.foldlM f p)
  | [], p => ReflTransGen.single ⟨.close, fun _ hdeep => by cases hdeep⟩
  | t :: ts, p => by
    rw [List.foldlM_cons]
    exact (hreact t ts p).bind (leads_triggers hreact ts)

/-- An event is put to the triggers as it is heard in the reference, at every level. -/
theorem leads_dispatchAt :
    ∀ (left depth : Nat), left + depth = r.deepest + 1 →
      ∀ (e : Event) (p : Progress) (hs : List Hearing),
        Leads r ⟨⟨e, depth, r.definition.line⟩ :: hs, p⟩ hs (r.dispatchAt left e p) := by
  intro left
  induction left with
  | zero =>
    intro depth hdepth e p hs
    rw [Rules.dispatchAt_eq]
    exact leads_triggers (fun t ts p => leads_react_below (by omega) _ t ts e p) _ p
  | succ left ih =>
    intro depth hdepth e p hs
    rw [Rules.dispatchAt_eq, Rules.depthAt_eq hdepth]
    exact leads_triggers
      (fun t ts p => leads_react (by omega) (ih (depth + 1) (by omega)) t ts e p) _ p

end Cascade

namespace Rules

open Cascade

variable (r : Rules) (events : List Event) (p : Progress)

/-- Where the reference starts with events that no trigger has raised. -/
def cascade : Cascade := ⟨hear r 1 events, p⟩

/-- The reference stops, with what the dispatcher comes to. -/
theorem exists_ends :
    ∃ c, ReflTransGen (Within r) (r.cascade events p) c ∧ c.Ends r (r.dispatch events p) := by
  have hleads : (r.cascade events p).Leads r [] (r.dispatch events p) := by
    have h : (⟨hear r 1 events ++ [], p⟩ : Cascade).Leads r [] (r.dispatch events p) :=
      leads_events (leads_dispatchAt _ 1 rfl) events p
    rwa [List.append_nil] at h
  cases hout : r.dispatch events p with
  | ok q =>
    rw [hout] at hleads
    exact ⟨_, hleads, .done⟩
  | error b =>
    rw [hout] at hleads
    exact hleads

/-- The dispatcher comes to a result exactly if the reference does: the same state, the same journal
and the same fault. -/
theorem dispatch_eq_iff {out : Tracked Progress} :
    r.dispatch events p = out ↔
      ∃ c, ReflTransGen (Within r) (r.cascade events p) c ∧ c.Ends r out := by
  obtain ⟨c, hpath, hends⟩ := r.exists_ends events p
  constructor
  · rintro rfl
    exact ⟨c, hpath, hends⟩
  · rintro ⟨c', hpath', hends'⟩
    exact eq_of_ends hpath hends hpath' hends'

end Rules

/-! ## The deepest level -/

/-- Only a cascade that goes too deep is reported as such. -/
theorem Fault.Plain.code_ne {f : Fault} (h : f.Plain) : f.code ≠ "MAX_TRIGGER_DEPTH_EXCEEDED" := by
  intro hcode
  cases f <;> first | exact h | simp [code] at hcode

/-- Effects put no events to triggers, so their faults are their own. -/
theorem Trigger.fire_fails (t : Trigger) (r : Rules) (depth : UInt32) (e : Event) (p : Progress) :
    Tabletop.Fails (fun b : Breakdown => b.fault.Plain) (t.fire r depth e p) :=
  Fails.bind ((runEffects_plain _ _ _ _ _).mapError (fun _ h => h)) (fun _ _ => .pure)

/-- Neither a condition nor effects fail as a cascade that goes too deep does. -/
theorem Cascade.Fails.code_ne {r : Rules} {c : Cascade} {b : Breakdown} (h : c.Fails r b) :
    b.fault.code ≠ "MAX_TRIGGER_DEPTH_EXCEEDED" := by
  cases h with
  | condition hbreaks =>
    have hpredicate : ∀ {name condition v fault}, holdsIn name condition v = .error fault →
        fault.code ≠ "MAX_TRIGGER_DEPTH_EXCEEDED" := by
      intro name condition v fault h
      obtain ⟨_, cause, -, -, rfl⟩ := holdsIn_eq_error_iff.1 h
      simp [Fault.code]
    cases hbreaks with
    | matching _ h => exact hpredicate h
    | when _ _ h => exact hpredicate h
  | effects _ hfire => exact Fault.Plain.code_ne ((Trigger.fire_fails _ _ _ _ _).of_error hfire)

/-- The dispatcher reports that a cascade goes too deep exactly if the reference, which knows no
deepest level, would at some point fire a trigger one level below it. -/
theorem Rules.dispatch_tooDeep_iff (r : Rules) (events : List Event) (p : Progress) :
    (∃ b, r.dispatch events p = .error b ∧ b.fault.code = "MAX_TRIGGER_DEPTH_EXCEEDED") ↔
      ∃ c e, ReflTransGen (Cascade.Step r) (r.cascade events p) c ∧ c.TooDeep r e := by
  constructor
  · rintro ⟨b, hout, hcode⟩
    obtain ⟨c, hpath, hends⟩ := (r.dispatch_eq_iff events p).1 hout
    cases hends with
    | fails _ hfails => exact absurd hcode hfails.code_ne
    | tooDeep hdeep => exact ⟨c, _, ReflTransGen.mono (fun _ _ => And.left) _ _ hpath, hdeep⟩
  · rintro ⟨c, e, hpath, hdeep⟩
    obtain ⟨c₁, e₁, hpath₁, hdeep₁⟩ := Cascade.exists_first_tooDeep hpath hdeep
    exact ⟨_, (r.dispatch_eq_iff events p).2 ⟨c₁, hpath₁, .tooDeep hdeep₁⟩, rfl⟩

end Tabletop
