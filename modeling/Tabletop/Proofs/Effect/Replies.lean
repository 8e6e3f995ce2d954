import Tabletop.Proofs.Effect.Cost
import Tabletop.Proofs.Effect.Terms
import Tabletop.Proofs.Paired.Inquiry

/-!
# Answers to a run of effects

A run of effects that stops for a selection stops at an operation of its own.  With a budget that
ends there, an answer that fits makes the run complete or leaves it without operations, and any
other answer is refused on the spot.

Main statement: `Session.run_replies`.
-/

namespace Tabletop

/-! ## Another budget -/

/-- The setting with another budget. -/
def Setting.within (s : Setting) (n : UInt32) : Setting := { s with maxOps := n }

namespace Site

/-- The site with another budget. -/
def within (s : Site) (n : UInt32) : Site := { s with setting := s.setting.within n }

variable (s : Site) (n : UInt32) (x : Session)

/-! What spends nothing does not depend on the budget. -/

/-- Folding over a query does not look at the budget. -/
theorem foldQuery_within (source : Query) (item acc : String) (initial next : Expr) :
    (s.within n).foldQuery x source item acc initial next =
      s.foldQuery x source item acc initial next :=
  s.foldQuery_onTerms s.setting.mode n x source item acc initial next

/-- Removing by priority does not look at the budget. -/
theorem removeByPriority_within (budget : Expr) (groups : List PriorityGroup) :
    (s.within n).removeByPriority x budget groups = s.removeByPriority x budget groups :=
  s.removeByPriority_onTerms s.setting.mode n x budget groups

end Site

/-! ## Questions -/

/-- What stops runs of effects, and the values of names that come in as answers. -/
def Inquiry.halts (p : Bindings) : Inquiry Halt where
  Open e := ∃ d, e = .pending d
  Fits e := ∃ d x, e = .pending d ∧ p.get? d.name = some x ∧ d.Takes x
  Misfits e := ∃ d x, e = .pending d ∧ p.get? d.name = some x ∧ ¬d.Takes x
  Refuses e e' := ∃ d cause, e = .pending d ∧ e' = .refused d.name cause
  Exhausts n e := ∃ path, e = .fault (.shortage n path)
  not_exhausts := by
    rintro e n ⟨d, rfl⟩ ⟨path, h⟩
    cases h

/-! ## Single effects -/

open Inquiry (Replies Spent)

/-- Sessions are the same, and bindings have the answer below them. -/
abbrev Widening.Answers (p : Bindings) (y y' : Session × Bindings) : Prop :=
  y'.1 = y.1 ∧ (Widening.adding p).Below y.2 y'.2

section

variable {p : Bindings} {top : UInt32} {s : Site} {x : Session} {b' : Bindings}

/-- Where only names come in, an effect comes to the same. -/
theorem Effect.run_answers (e : Effect) (hb : (Widening.adding p).Below s.bindings b')
    {y : Session × Bindings} (h : e.run s x = .ok y) :
    ∃ y', e.run (s.under b') x = .ok y' ∧ Widening.Answers p y y' := by
  obtain ⟨y', hy', hstep, hbelow⟩ :=
    (Effect.run_paired e s hb (Widening.inStep_refl x)).of_ok h
  exact ⟨y', hy', hstep.eq, hbelow⟩

/-- A plain effect asks for nothing and spends nothing itself. -/
theorem Effect.Plain.run_replies {e : Effect} (he : e.Plain)
    (hb : (Widening.adding p).Below s.bindings b') :
    Replies (.halts p) top x.ops (fun y => y.1.ops) (Widening.Answers p)
      (fun n => e.run (s.within n) x) (fun n => e.run ((s.under b').within n) x) := by
  have hwithin (s : Site) (n : UInt32) : e.run (s.within n) x = e.run s x :=
    he.run_onTerms s x s.setting.mode n
  have hsettled := he.run_settled s x
  simp only [hwithin]
  refine .still (fun y hy => (hsettled.of_ok hy).1.ops_eq) (fun y hy => e.run_answers hb hy) ?_
  rintro _ he ⟨d, rfl⟩
  rw [he] at hsettled
  exact absurd hsettled id

end

/-- What follows a result asks if the result does not fail. -/
theorem bindLift_eq_pending {α β : Type} {r : Result α} {f : α → Attempt β} {d : Decision}
    (h : liftM r >>= f = .error (.pending d)) : ∃ x, r = .ok x ∧ f x = .error (.pending d) := by
  cases r with
  | error fault => cases h
  | ok x => exact ⟨x, rfl, h⟩

/-- What follows a result at hand. -/
theorem bindLift_of_ok {α β : Type} {r : Result α} {f : α → Attempt β} {x : α} {y : Attempt β}
    (hr : r = .ok x) (hf : f x = y) : liftM r >>= f = y := by
  subst hr
  exact hf

namespace Site

variable {p : Bindings} (s : Site) (x : Session) {b' : Bindings}

/-- A refusal where decisions may be left open. -/
theorem refuse_of_discover {α : Type} (hmode : s.setting.mode = .discover) (name : String)
    (cause : ChoiceFault) : (s.refuse name cause : Attempt α) = .error (.refused name cause) := by
  unfold refuse
  rw [hmode]

/-- A refusal leaves nothing open. -/
theorem refuse_ne_pending {α : Type} (name : String) (cause : ChoiceFault) (d : Decision) :
    (s.refuse name cause : Attempt α) ≠ .error (.pending d) := by
  unfold refuse
  split <;> exact fun h => by cases h

/-- What is missing is asked for where decisions may be left open. -/
theorem missing_eq_pending {α : Type} {d d' : Decision}
    (h : (s.missing d : Attempt α) = .error (.pending d')) :
    s.setting.mode = .discover ∧ d = d' := by
  unfold missing at h
  cases hmode : s.setting.mode with
  | strict => rw [hmode] at h; cases h
  | discover =>
    rw [hmode] at h
    cases h
    exact ⟨rfl, rfl⟩

/-- A choice of one option asks where its name is free. -/
theorem chooseOne_eq_pending {bind : String} {options : Query} {d : Decision}
    (h : s.chooseOne x bind options = .error (.pending d)) :
    ∃ name domain, s.bindings.fill bind = .ok name ∧ options.eval (s.view x) = .ok domain ∧
      s.bindings.get? name = none ∧ s.setting.mode = .discover ∧
      d = .one (s.decisionId name) name domain := by
  obtain ⟨name, hname, h⟩ := bindLift_eq_pending h
  obtain ⟨domain, hdomain, h⟩ := bindLift_eq_pending h
  cases hget : s.bindings.get? name with
  | none =>
    rw [hget] at h
    obtain ⟨hmode, hd⟩ := s.missing_eq_pending h
    exact ⟨name, domain, hname, hdomain, hget, hmode, hd.symm⟩
  | some selected =>
    rw [hget] at h
    dsimp only at h
    split at h
    · exact absurd h (s.refuse_ne_pending _ _ _)
    · cases h

/-- A choice of one option looks for what has been selected among the options. -/
theorem chooseOne_of_bound {bind name : String} {options : Query} {domain : List Value} {v : Value}
    (hname : s.bindings.fill bind = .ok name) (hdomain : options.eval (s.view x) = .ok domain)
    (hv : s.bindings.get? name = some v) :
    s.chooseOne x bind options =
      match domain.find? (fun option => option.same v) with
      | none => s.refuse name (.outside v.text name)
      | some option => .ok (s.bindings.bindChoice bind name option) := by
  refine bindLift_of_ok hname (bindLift_of_ok hdomain ?_)
  rw [hv]
  rfl

/-- A choice of one option takes an answer that fits, and refuses any other. -/
theorem chooseOne_replied (hb : (Widening.adding p).Below s.bindings b') (bind : String)
    (options : Query) {d : Decision} (h : s.chooseOne x bind options = .error (.pending d))
    {v : Value} (hv : p.get? d.name = some v) :
    (d.Takes v → ∃ c, (s.under b').chooseOne x bind options = .ok c) ∧
      (¬d.Takes v → ∃ cause,
        (s.under b').chooseOne x bind options = .error (.refused d.name cause)) := by
  obtain ⟨name, domain, hname, hdomain, hget, hmode, rfl⟩ := s.chooseOne_eq_pending x h
  have hv' : b'.get? name = some v := (hb.get?_of_none hget).trans hv
  have hname' : (s.under b').bindings.fill bind = .ok name :=
    (Bindings.fill_stays hb bind).eq_ok hname
  have hdomain' : options.eval ((s.under b').view x) = .ok domain :=
    (options.eval_stays (v := s.view x) hb).eq_ok hdomain
  rw [(s.under b').chooseOne_of_bound x hname' hdomain' hv']
  cases hfound : domain.find? (fun option => option.same v) with
  | none =>
    refine ⟨fun ⟨option, hmem, hsame⟩ => ?_, fun _ => ?_⟩
    · exact absurd hsame (List.find?_eq_none.1 hfound option hmem)
    · exact ⟨_, (s.under b').refuse_of_discover hmode name _⟩
  | some option =>
    have hsame := List.find?_some hfound
    have htakes : (Decision.one (s.decisionId name) name domain).Takes v :=
      ⟨option, List.mem_of_find?_eq_some hfound, hsame⟩
    exact ⟨fun _ => ⟨_, rfl⟩, fun hnot => absurd htakes hnot⟩

/-- A choice of several options asks where its name is free. -/
theorem chooseN_eq_pending {bind : String} {options : Query} {c : Cardinality} {d : Decision}
    (h : s.chooseN x bind options c = .error (.pending d)) :
    ∃ name domain min max, s.bindings.fill bind = .ok name ∧
      options.eval (s.view x) = .ok domain ∧ s.bounds x c domain.length = .ok (min, max) ∧
      ¬(min < 0 ∨ max < min) ∧ s.bindings.get? name = none ∧ s.setting.mode = .discover ∧
      d = { id := s.decisionId name, name, kind := .chooseN, domain, min := min.toInt.toNat,
            max := max.toInt.toNat } := by
  obtain ⟨name, hname, h⟩ := bindLift_eq_pending h
  obtain ⟨domain, hdomain, h⟩ := bindLift_eq_pending h
  obtain ⟨⟨min, max⟩, hbounds, h⟩ := bindLift_eq_pending h
  dsimp only at h
  split at h
  · cases h
  · rename_i hrange
    cases hget : s.bindings.get? name with
    | none =>
      rw [hget] at h
      obtain ⟨hmode, hd⟩ := s.missing_eq_pending h
      exact ⟨name, domain, min, max, hname, hdomain, hbounds, hrange, hget, hmode, hd.symm⟩
    | some selected =>
      rw [hget] at h
      cases selected with
      | scalar y => exact absurd h (s.refuse_ne_pending _ _ _)
      | token id => exact absurd h (s.refuse_ne_pending _ _ _)
      | array xs =>
        dsimp only at h
        split at h
        · exact absurd h (s.refuse_ne_pending _ _ _)
        · cases h

/-- A choice of several options looks at the list that has been selected. -/
theorem chooseN_of_bound {bind name : String} {options : Query} {c : Cardinality}
    {domain : List Value} {min max : Int64} {v : Value} (hname : s.bindings.fill bind = .ok name)
    (hdomain : options.eval (s.view x) = .ok domain)
    (hbounds : s.bounds x c domain.length = .ok (min, max)) (hrange : ¬(min < 0 ∨ max < min)) :
    s.bindings.get? name = some v → s.chooseN x bind options c =
      match v with
      | .array xs =>
        match choiceFault? name domain min.toInt.toNat max.toInt.toNat xs with
        | some fault => s.refuse name fault
        | none => .ok (s.bindings.bindChoice bind name (.array xs))
      | other => s.refuse name (.notArray name other.typeName) := by
  intro hv
  refine bindLift_of_ok hname (bindLift_of_ok hdomain (bindLift_of_ok hbounds ?_))
  dsimp only
  rw [if_neg hrange, hv]
  cases v <;> rfl

/-- A choice of several options takes an answer that fits, and refuses any other. -/
theorem chooseN_replied (hb : (Widening.adding p).Below s.bindings b') (bind : String)
    (options : Query) (c : Cardinality) {d : Decision}
    (h : s.chooseN x bind options c = .error (.pending d)) {v : Value}
    (hv : p.get? d.name = some v) :
    (d.Takes v → ∃ b, (s.under b').chooseN x bind options c = .ok b) ∧
      (¬d.Takes v → ∃ cause,
        (s.under b').chooseN x bind options c = .error (.refused d.name cause)) := by
  obtain ⟨name, domain, min, max, hname, hdomain, hbounds, hrange, hget, hmode, rfl⟩ :=
    s.chooseN_eq_pending x h
  have hv' : b'.get? name = some v := (hb.get?_of_none hget).trans hv
  have hname' : (s.under b').bindings.fill bind = .ok name :=
    (Bindings.fill_stays hb bind).eq_ok hname
  have hdomain' : options.eval ((s.under b').view x) = .ok domain :=
    (options.eval_stays (v := s.view x) hb).eq_ok hdomain
  have hbounds' : (s.under b').bounds x c domain.length = .ok (min, max) :=
    (s.bounds_stays hb (Widening.inStep_refl x) c domain.length).eq_ok hbounds
  rw [(s.under b').chooseN_of_bound x hname' hdomain' hbounds' hrange hv']
  have hrefuse (cause : ChoiceFault) :
      ∃ cause', ((s.under b').refuse name cause : Attempt Bindings) =
        .error (.refused name cause') :=
    ⟨cause, (s.under b').refuse_of_discover hmode name cause⟩
  cases v with
  | scalar y => exact ⟨fun ⟨_, h, _⟩ => (by cases h), fun _ => hrefuse _⟩
  | token id => exact ⟨fun ⟨_, h, _⟩ => (by cases h), fun _ => hrefuse _⟩
  | array xs =>
    dsimp only
    cases hfault : choiceFault? name domain min.toInt.toNat max.toInt.toNat xs with
    | none => exact ⟨fun _ => ⟨_, rfl⟩, fun hnot => absurd ⟨xs, rfl, hfault⟩ hnot⟩
    | some fault =>
      refine ⟨fun ⟨ys, hys, hnone⟩ => ?_, fun _ => hrefuse fault⟩
      cases hys
      cases hfault.symm.trans hnone

end Site

/-! ## Runs -/

section

variable {p : Bindings} {top : UInt32} {s : Site} {x : Session} {b' : Bindings}

/-- Effects that run with nothing left to spend. -/
theorem Effect.runAll_spent (es : List Effect) (s : Site) (i : Nat) {n : UInt32}
    (hn : s.setting.maxOps = n) (hx : x.ops = n.toNat) :
    (Inquiry.halts p).Spent n.toNat (fun y => y.1.ops) (Effect.runAll es s i x) := by
  subst hn
  cases es with
  | nil => exact hx
  | cons e es =>
    rw [Effect.runAll, (s.entry i e).spend_of_eq hx]
    exact ⟨_, rfl⟩

/-- A body whose bindings are forgotten at its end. -/
theorem forget_replies (hb : (Widening.adding p).Below s.bindings b') {before : Nat}
    {a a' : UInt32 → Attempt (Session × Bindings)}
    (h : Replies (.halts p) top before (fun y => y.1.ops) (Widening.Answers p) a a') :
    Replies (.halts p) top before (fun y => y.1.ops) (Widening.Answers p)
      (fun n => a n >>= fun y => pure (y.1, s.bindings))
      (fun n => a' n >>= fun y => pure (y.1, b')) := by
  refine h.bind (fun _ _ _ n y' hy => hy) (fun n y y' _ _ hy => ?_)
  obtain ⟨hsession, -⟩ := hy
  exact .pure rfl ⟨hsession, hb⟩

/-- What asks for nothing and spends nothing; what follows replies. -/
theorem bindQuiet_replies {α β : Type} {before : Nat} (mid : α → Nat) {after : β → Nat}
    {R : α → α → Prop} {Q : β → β → Prop} {a a' : Attempt α} {f f' : UInt32 → α → Attempt β}
    (ha : Settled (fun v => mid v = before) a)
    (hfollows : ∀ v, a = .ok v → ∃ v', a' = .ok v' ∧ R v v')
    (hf : ∀ v v', a = .ok v → R v v' →
      Replies (.halts p) top (mid v) after Q (fun n => f n v) (fun n => f' n v')) :
    Replies (.halts p) top before after Q (fun n => a >>= f n) (fun n => a' >>= f' n) := by
  have hquiet : ∀ e, a = .error e → ¬(Inquiry.halts p).Open e := by
    rintro _ he ⟨d, rfl⟩
    rw [he] at ha
    exact ha
  have hstill : Replies (.halts p) top before mid R (fun _ => a) (fun _ => a') :=
    .still (fun v hv => ha.of_ok hv) hfollows (fun e he hopen => absurd hopen (hquiet e he))
  exact hstill.bind (fun e he hopen => absurd hopen (hquiet e he))
    (fun n v v' _ hv hR => hf v v' hv hR)

/-- A result asks for nothing and spends nothing; what follows replies. -/
theorem bindLift_replies {α β : Type} {before : Nat} {after : β → Nat} {Q : β → β → Prop}
    {r r' : Result α} {f f' : UInt32 → α → Attempt β} (hstays : Stays r r')
    (hf : ∀ v, Replies (.halts p) top before after Q (fun n => f n v) (fun n => f' n v)) :
    Replies (.halts p) top before after Q (fun n => liftM r >>= f n)
      (fun n => liftM r' >>= f' n) := by
  refine bindQuiet_replies (fun _ => before) (R := Eq) (.lift (fun _ _ => rfl))
    (fun v hv => (hstays.attempt (w := .adding p)).of_ok hv) ?_
  rintro v _ - rfl
  exact hf v

/-- An operation that is spent is within the budget. -/
theorem Site.spend_eq_ok {s : Site} {x y : Session} (h : s.spend x = .ok y) :
    y = x.tick ∧ y.ops = x.ops + 1 ∧ y.ops ≤ s.setting.maxOps.toNat := by
  rcases s.spend_cases x with ⟨hlt, hspend⟩ | ⟨-, fault, hfault⟩
  · cases hspend.symm.trans h
    have hops := Session.ops_tick hlt
    exact ⟨rfl, hops, Nat.le_trans (Nat.le_of_eq hops) hlt⟩
  · cases hfault.symm.trans h

/-- Spending an operation asks for nothing. -/
theorem Site.spend_ne_pending (s : Site) (x : Session) (d : Decision) :
    s.spend x ≠ .error (.pending d) := by
  rcases s.spend_cases x with ⟨-, hspend⟩ | ⟨-, fault, hfault⟩
  · rw [hspend]
    nofun
  · rw [hfault]
    nofun

/-- Spending an operation takes one more. -/
theorem Site.spend_replies (s : Site) (x : Session) (b' : Bindings) :
    Replies (.halts p) top x.ops Session.ops Eq (fun n => (s.within n).spend x)
      (fun n => ((s.under b').within n).spend x) := by
  constructor
  · intro n y _ hy
    rw [(spend_eq_ok hy).2.1]
    exact Nat.le_succ _
  · intro y hy n _ hn
    obtain ⟨rfl, hops, -⟩ := spend_eq_ok hy
    rw [hops] at hn
    exact spend_of_lt (s := s.within n) hn
  · intro y hy n _ hbn hn
    obtain ⟨rfl, hops, -⟩ := spend_eq_ok hy
    rw [hops] at hn
    have hspent : x.ops = n.toNat := Nat.le_antisymm hbn (Nat.le_of_lt_succ hn)
    exact ⟨_, spend_of_eq (s := s.within n) hspent, _, rfl⟩
  · exact fun _ hy => ⟨_, hy, rfl⟩
  · rintro _ he ⟨d, rfl⟩
    exact absurd he (spend_ne_pending _ x d)

/-- A choice asks for its own name, if it asks. -/
theorem choice_replies (hx : x.ops ≤ top.toNat) {a a' : Attempt Bindings}
    (hfollows : ∀ c, a = .ok c → ∃ c', a' = .ok c' ∧ (Widening.adding p).Below c c')
    (hreplied : ∀ d v, a = .error (.pending d) → p.get? d.name = some v →
      (d.Takes v → ∃ c, a' = .ok c) ∧
        (¬d.Takes v → ∃ cause, a' = .error (.refused d.name cause))) :
    Replies (.halts p) top x.ops (fun y => y.1.ops) (Widening.Answers p)
      (fun _ => do return (x, ← a)) (fun _ => do return (x, ← a')) := by
  refine .still (fun y hy => ?_) (fun y hy => ?_) (fun e he hopen => ⟨hx, ?_⟩)
  · obtain ⟨c, -, hy⟩ := bind_eq_ok hy
    cases hy
    rfl
  · obtain ⟨c, hc, hy⟩ := bind_eq_ok hy
    cases hy
    obtain ⟨c', hc', hbelow⟩ := hfollows c hc
    exact ⟨(x, c'), bind_ok hc' rfl, rfl, hbelow⟩
  · have ha : a = .error e := by
      rcases bind_eq_error he with he | ⟨c, -, he⟩
      · exact he
      · cases he
    constructor
    · rintro ⟨d, v, rfl, hv, htakes⟩
      obtain ⟨c, hc⟩ := (hreplied d v ha hv).1 htakes
      rw [hc]
      rfl
    · rintro ⟨d, v, rfl, hv, hnot⟩
      obtain ⟨cause, hcause⟩ := (hreplied d v ha hv).2 hnot
      exact ⟨_, by rw [hcause]; rfl, d, cause, rfl, rfl⟩

end

mutual

/-- An effect that has been paid for replies. -/
theorem Effect.run_replies {p : Bindings} {top : UInt32} (e : Effect) (s : Site) {x : Session}
    {b' : Bindings} (hb : (Widening.adding p).Below s.bindings b') (hx : x.ops ≤ top.toNat) :
    Replies (.halts p) top x.ops (fun y => y.1.ops) (Widening.Answers p)
      (fun n => e.run (s.within n) x) (fun n => e.run ((s.under b').within n) x) := by
  cases e with
  | ifThenElse when yes no =>
    simp only [Effect.run]
    refine bindLift_replies (when.eval_stays (v := s.view x) hb) (fun holds => ?_)
    cases holds with
    | true => exact forget_replies hb (Effect.runAll_replies yes (s.enter "then") 0 hb)
    | false => exact forget_replies hb (Effect.runAll_replies no (s.enter "else") 0 hb)
  | forEach bind source body limit =>
    simp only [Effect.run]
    refine bindLift_replies (source.eval_stays (v := s.view x) hb) (fun items => ?_)
    refine bindQuiet_replies (fun _ => x.ops) (R := Eq)
      ((s.loopLimit_settled x limit).mono (fun _ _ => rfl))
      (fun v hv => (s.loopLimit_stays hb (Widening.inStep_refl x) limit).of_ok hv) ?_
    rintro limit _ - rfl
    refine Replies.bind (R := Eq)
      (Replies.foldlM Session.ops (fun i y => ?_) (fun n i y hy => ?_) _ x) ?_ ?_
    · refine Replies.bind (Effect.runAll_replies body (s.each bind i.1 i.2) 0 (hb.bind bind i.1))
        ?_ ?_
      · exact fun _ _ _ n z hz => hz
      · rintro n ⟨z, c⟩ ⟨_, c'⟩ - - ⟨rfl, -⟩
        exact .pure rfl rfl
    · refine Spent.bind (Effect.runAll_spent body _ 0 rfl hy) ?_
      exact fun z hz => hz
    · exact fun _ _ _ n y hy => hy
    · rintro n y _ - - rfl
      change Replies _ _ _ _ _ (fun _ => pure (y, s.bindings)) (fun _ => pure (y, b'))
      exact .pure rfl ⟨rfl, hb⟩
  | letIn bind value body =>
    simp only [Effect.run]
    refine bindLift_replies (value.eval_stays (v := s.view x) hb) (fun value => ?_)
    exact forget_replies hb
      (Effect.runAll_replies body ((s.bind bind value).enter "in") 0 (hb.bind bind value))
  | reduce source item acc initial next result body =>
    simp only [Effect.run, Site.foldQuery_within]
    refine bindLift_replies (s.foldQuery_stays hb (Widening.inStep_refl x) source item acc initial
      next) (fun value => ?_)
    exact forget_replies hb
      (Effect.runAll_replies body ((s.bind result value).enter "in") 0 (hb.bind result value))
  | rollRandom bind min max body =>
    simp only [Effect.run]
    refine bindQuiet_replies (fun v : Int64 × Session => v.2.ops)
      (R := Site.DrawInStep (.adding p)) ((s.roll_altered x min max).mono (fun _ hv => hv.ops_eq))
      (fun v hv => (s.roll_paired hb (Widening.inStep_refl x) min max).of_ok hv) ?_
    rintro ⟨_, y⟩ ⟨n, y'⟩ - ⟨rfl, hy⟩
    obtain rfl := hy.eq
    exact forget_replies hb
      (Effect.runAll_replies body ((s.bind bind (.int n)).enter "in") 0 (hb.bind bind (.int n)))
  | removeByPriority budget groups countBind body =>
    simp only [Effect.run, Site.removeByPriority_within]
    refine bindQuiet_replies (fun v : Nat × Session => v.2.ops)
      (R := Site.CountInStep (.adding p))
      ((s.removeByPriority_altered x budget groups).mono (fun _ hv => hv.ops_eq))
      (fun v hv =>
        (s.removeByPriority_paired hb (Widening.inStep_refl x) budget groups).of_ok hv) ?_
    rintro ⟨_, y⟩ ⟨count, y'⟩ - ⟨rfl, hy⟩
    obtain rfl := hy.eq
    cases countBind with
    | none => exact forget_replies hb (Effect.runAll_replies body (s.enter "in") 0 hb)
    | some name =>
      exact forget_replies hb (Effect.runAll_replies body
        ((s.bind name (.int (Int64.ofNat count))).enter "in") 0 (hb.bind name _))
  | chooseOne bind options =>
    refine choice_replies hx (fun c hc => ?_)
      (fun d v h hv => s.chooseOne_replied x hb bind options h hv)
    exact (s.chooseOne_paired hb (Widening.inStep_refl x) bind options).of_ok hc
  | chooseN bind options cardinality =>
    refine choice_replies hx (fun c hc => ?_)
      (fun d v h hv => s.chooseN_replied x hb bind options cardinality h hv)
    exact (s.chooseN_paired hb (Widening.inStep_refl x) bind options cardinality).of_ok hc
  | _ => exact Effect.Plain.run_replies trivial hb

/-- Effects that run one after the other reply. -/
theorem Effect.runAll_replies {p : Bindings} {top : UInt32} (es : List Effect) (s : Site) (i : Nat)
    {x : Session} {b' : Bindings} (hb : (Widening.adding p).Below s.bindings b') :
    Replies (.halts p) top x.ops (fun y => y.1.ops) (Widening.Answers p)
      (fun n => Effect.runAll es (s.within n) i x)
      (fun n => Effect.runAll es ((s.under b').within n) i x) := by
  cases es with
  | nil =>
    change Replies _ _ _ _ _ (fun _ => pure (x, s.bindings)) (fun _ => pure (x, b'))
    exact .pure rfl ⟨rfl, hb⟩
  | cons e es =>
    simp only [Effect.runAll]
    refine ((s.entry i e).spend_replies x b').bind (fun halt he hopen => ?_)
      (fun n y y' hn hy h => ?_)
    · obtain ⟨d, rfl⟩ := hopen
      exact absurd he (Site.spend_ne_pending _ x d)
    · obtain rfl : y = y' := h
      have hops := (Site.spend_eq_ok hy).2.2
      refine (Effect.run_replies e (s.entry i e) hb (Nat.le_trans hops ?_)).bind ?_ ?_
      · exact UInt32.le_iff_toNat_le.1 hn
      · exact fun _ _ _ k z hz => Effect.runAll_spent es _ (i + 1) rfl hz
      · rintro k ⟨z, c⟩ ⟨_, c'⟩ - - ⟨rfl, hc⟩
        exact Effect.runAll_replies es { s with bindings := c } (i + 1) hc

end

section

variable {p : Bindings} {top : UInt32} (x : Session) (setting : Setting) (root : String)
  {b b' : Bindings} (effects : List Effect)

/-- A whole run replies. -/
theorem Session.run_replies (hb : (Widening.adding p).Below b b') :
    Replies (.halts p) top x.ops Session.ops Eq (fun n => x.run (setting.within n) root b effects)
      (fun n => x.run (setting.within n) root b' effects) := by
  refine Replies.bind (Effect.runAll_replies effects { setting, path := root, bindings := b } 0 hb)
    ?_ ?_
  · exact fun _ _ _ n y hy => hy
  · rintro n ⟨y, c⟩ ⟨_, c'⟩ - - ⟨rfl, -⟩
    exact .pure rfl rfl

/-- A whole run with nothing left to spend. -/
theorem Session.run_spent (b : Bindings) {n : UInt32} (hx : x.ops = n.toNat) :
    (Inquiry.halts p).Spent n.toNat Session.ops (x.run (setting.within n) root b effects) := by
  refine Spent.bind (Effect.runAll_spent effects _ 0 rfl hx) ?_
  exact fun _ hy => hy

end

end Tabletop
