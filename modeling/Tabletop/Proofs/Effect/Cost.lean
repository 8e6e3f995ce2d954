import Mathlib.Data.Finset.Card
import Tabletop.Proofs.Effect.Asking
import Tabletop.Proofs.Paired.Run

/-!
# What selections cost

A run needs a selection if it would stop for it without.  Every selection that a run needs has been
looked up by an effect of its own, and every effect costs an operation, so a run needs no more
selections than it spends operations.

The runs that lack a selection are compared with the one that has them all: up to the point where
they stop they are the same.

Main statement: `Session.run_counts`.
-/

namespace Tabletop

/-! ## Fewer names in scope -/

namespace Widening

/-- Names come in below all others, and nothing else changes. -/
def adding (p : Bindings) : Widening where
  params := p

variable {p : Bindings}

/-- A session is in step with itself when names come in. -/
theorem inStep_refl (x : Session) : (adding p).InStep x x := ⟨x.trace, rfl, fun _ => rfl⟩

/-- Where only names come in, sessions in step are the same. -/
theorem InStep.eq {x y : Session} (h : (adding p).InStep x y) : y = x := by
  obtain ⟨trace, rfl, htrace⟩ := h
  rw [htrace rfl]
  rfl

end Widening

/-- With fewer names in scope, a computation stops for a name. -/
def Needs {ε α : Type} (asked : ε → Option String) (b : Bindings) (a : Bindings → Except ε α)
    (name : String) : Prop :=
  ∃ p c, (Widening.adding p).Below c b ∧ ∃ e, a c = .error e ∧ asked e = some name

/-- Between two readings of a counter, a computation counts at least one for every name that it
needs. -/
def Counts {ε α : Type} (asked : ε → Option String) (b : Bindings) (before : Nat) (after : α → Nat)
    (a : Bindings → Except ε α) : Prop :=
  ∀ y, a b = .ok y → ∀ names : Finset String, (∀ name ∈ names, Needs asked b a name) →
    before + names.card ≤ after y

namespace Counts

variable {ε α β : Type} {asked : ε → Option String} {b : Bindings} {n : Nat}

/-- What asks for nothing needs no names. -/
theorem quiet {after : α → Nat} {a : Bindings → Except ε α} (h : ∀ y, a b = .ok y → n ≤ after y)
    (hasked : ∀ c e, a c = .error e → asked e = none) : Counts asked b n after a := by
  intro y hy names hnames
  obtain rfl : names = ∅ := by
    apply Finset.eq_empty_of_forall_notMem
    intro name hname
    obtain ⟨p, c, -, e, he, hname⟩ := hnames name hname
    rw [hasked c e he] at hname
    cases hname
  exact h y hy

/-- Names that are needed are needed before a point or after it. -/
theorem split {before mid after : Nat} {names : Finset String} {first second : String → Prop}
    (hnames : ∀ name ∈ names, first name ∨ second name)
    (hfirst : ∀ ns : Finset String, (∀ name ∈ ns, first name) → before + ns.card ≤ mid)
    (hsecond : ∀ ns : Finset String, (∀ name ∈ ns, second name) → mid + ns.card ≤ after) :
    before + names.card ≤ after := by
  classical
  have h₁ := hfirst (names.filter first) (fun name h => (Finset.mem_filter.1 h).2)
  have h₂ := hsecond (names.filter (fun name => ¬first name)) (fun name h => by
    obtain ⟨hname, hnot⟩ := Finset.mem_filter.1 h
    exact (hnames name hname).resolve_left hnot)
  have hcard := Finset.card_filter_add_card_filter_not (s := names) first
  omega

/-- What counts step by step counts as a whole, if the results of the first step do not depend on
the names that are missing. -/
theorem bind (mid : α → Nat) {after : β → Nat} {a : Bindings → Except ε α}
    {f : Bindings → α → Except ε β} (ha : Counts asked b n mid a)
    (hsame : ∀ p c x, (Widening.adding p).Below c b → a c = .ok x → a b = .ok x)
    (hf : ∀ x, a b = .ok x → Counts asked b (mid x) after (fun c => f c x)) :
    Counts asked b n after (fun c => a c >>= f c) := by
  intro y hy names hnames
  obtain ⟨x, hx, hy⟩ := bind_eq_ok hy
  refine split (fun name hname => ?_) (ha x hx) (hf x hx y hy)
  obtain ⟨p, c, hc, e, he, hname⟩ := hnames name hname
  dsimp only at he
  cases hac : a c with
  | error e' =>
    rw [hac] at he
    cases he
    exact .inl ⟨p, c, hc, e, hac, hname⟩
  | ok x' =>
    rw [hac] at he
    have hx' := hsame p c x' hc hac
    rw [hx] at hx'
    cases hx'
    exact .inr ⟨p, c, hc, e, he, hname⟩

/-- A result that is handed on, perhaps with bindings, needs what it needed. -/
theorem bindPure (after : α → Nat) {after' : β → Nat} {a : Bindings → Except ε α}
    {g : Bindings → α → β} (h : Counts asked b n after a) (hafter : ∀ y, after y ≤ after' (g b y)) :
    Counts asked b n after' (fun c => a c >>= fun x => pure (g c x)) := by
  intro z hz names hnames
  obtain ⟨y, hy, hz⟩ := bind_eq_ok hz
  cases hz
  refine Nat.le_trans (h y hy names (fun name hname => ?_)) (hafter y)
  obtain ⟨p, c, hc, e, he, hasked⟩ := hnames name hname
  dsimp only at he
  cases hac : a c with
  | ok x =>
    rw [hac] at he
    cases he
  | error e' =>
    rw [hac] at he
    cases he
    exact ⟨p, c, hc, e, hac, hasked⟩

/-- A fold whose steps count. -/
theorem foldlM {γ : Type} {f : Bindings → α → γ → Except ε α} {counter : α → Nat}
    (hf : ∀ i x, Counts asked b (counter x) counter (fun c => f c x i))
    (hsame : ∀ p c i x y, (Widening.adding p).Below c b → f c x i = .ok y → f b x i = .ok y) :
    ∀ (l : List γ) (x : α), Counts asked b (counter x) counter (fun c => l.foldlM (f c) x)
  | [], x => .quiet (fun y hy => by cases hy; exact Nat.le_refl _) (fun _ _ he => by cases he)
  | i :: l, x => by
    simp only [List.foldlM_cons]
    exact .bind counter (hf i x) (fun p c y hc => hsame p c i x y hc)
      (fun y _ => foldlM hf hsame l y)

/-- Names that are bound in all of the computations make no difference. -/
theorem inner {after : α → Nat} {a : Bindings → Except ε α} (name : String) (x : Value)
    (h : Counts asked (b.bind name x) n after a) :
    Counts asked b n after (fun c => a (c.bind name x)) := by
  intro y hy names hnames
  apply h y hy names
  intro other hother
  obtain ⟨p, c, hc, e, he, hother⟩ := hnames other hother
  exact ⟨p, c.bind name x, hc.bind name x, e, he, hother⟩

end Counts

/-! ## Single effects -/

/-- The name for which a run has stopped, if it has stopped for a selection. -/
def Halt.asked? : Halt → Option String
  | .pending d => some d.name
  | .fault _ => none
  | .refused _ _ => none

/-- A settled attempt that stops has no name for which it stops. -/
theorem Settled.asked? {α : Type} {P : α → Prop} {a : Attempt α} (h : Settled P a) {e : Halt}
    (he : a = .error e) : e.asked? = none := by
  subst he
  cases e with
  | pending d => exact absurd h id
  | fault f => rfl
  | refused name cause => rfl

/-- A fault of an evaluation is no request for a selection. -/
theorem asked?_lift {α : Type} {r : Result α} {e : Halt}
    (he : (liftM r : Attempt α) = .error e) : e.asked? = none :=
  (Settled.lift (P := fun _ => True) (fun _ _ => trivial)).asked? he

/-- A result asks for nothing; what follows counts. -/
theorem Counts.bindLift {α β : Type} {b : Bindings} {n : Nat} {after : β → Nat}
    {a : Bindings → Result α} {f : Bindings → α → Attempt β}
    (hstays : ∀ p c, (Widening.adding p).Below c b → Stays (a c) (a b))
    (hf : ∀ x, Counts Halt.asked? b n after (fun c => f c x)) :
    Counts Halt.asked? b n after (fun c => liftM (a c) >>= f c) := by
  refine .bind (fun _ => n) ?_ ?_ (fun x _ => hf x)
  · exact .quiet (fun _ _ => Nat.le_refl n) (fun _ _ => asked?_lift)
  · intro p c x hc hx
    obtain ⟨y, hy, rfl⟩ := ((hstays p c hc).attempt (w := .adding p)).of_ok hx
    exact hy

/-- What asks for nothing, and does not depend on the names that are missing; what follows
counts. -/
theorem Counts.bindSettled {α β : Type} {b : Bindings} {n : Nat} (mid : α → Nat) {after : β → Nat}
    {P : α → Prop} {a : Bindings → Attempt α} {f : Bindings → α → Attempt β}
    (ha : ∀ c, Settled P (a c)) (hP : ∀ x, P x → n ≤ mid x)
    (hsame : ∀ p c x, (Widening.adding p).Below c b → a c = .ok x → a b = .ok x)
    (hf : ∀ x, P x → Counts Halt.asked? b (mid x) after (fun c => f c x)) :
    Counts Halt.asked? b n after (fun c => a c >>= f c) := by
  refine .bind mid (.quiet (fun x hx => ?_) (fun c e he => (ha c).asked? he)) hsame (fun x hx => ?_)
  · exact hP x ((ha b).of_ok hx)
  · exact hf x ((ha b).of_ok hx)

/-- An alteration counts no operation. -/
theorem Alters.ops_eq {s : Setting} {x y : Session} (h : Alters s x y) : y.ops = x.ops := by
  cases h with
  | storeVar hslot n =>
    unfold Site.storeVar
    split
    · rfl
    · exact Site.note_ops _ _ _
  | moveBlock => exact Site.arriveAll_ops _ _ _ _ _
  | moveWithin => rfl
  | roll => rfl
  | grant => rfl
  | override => rfl
  | interrupt => rfl
  | _ => exact Site.note_ops _ _ _

/-- Alterations count no operations. -/
theorem Altered.ops_eq {s : Setting} {x y : Session} (h : Altered s x y) : y.ops = x.ops := by
  induction h with
  | refl => rfl
  | tail _ hstep ih => exact hstep.alters.ops_eq.trans ih

/-- Alterations leave the counter. -/
theorem Altered.counter_eq {s : Setting} {x y : Session} (h : Altered s x y) :
    y.counter = x.counter := UInt32.toNat_inj.1 h.ops_eq

namespace Site

variable (s : Site) (x : Session)

/-- The site with other bindings. -/
def under (s : Site) (c : Bindings) : Site := { s with bindings := c }

end Site

/-- An attempt stops only for names of a kind. -/
def StopsFor {α : Type} (kind : String → Prop) (a : Attempt α) : Prop :=
  ∀ e name, a = .error e → e.asked? = some name → kind name

namespace StopsFor

variable {α β : Type} {kind : String → Prop}

/-- An attempt that starts with an evaluation stops only for the names for which what follows
stops. -/
theorem bindLift {r : Result α} {f : α → Attempt β} (hf : ∀ x, r = .ok x → StopsFor kind (f x)) :
    StopsFor kind (liftM r >>= f) := by
  intro e name he hname
  cases r with
  | error f =>
    cases he
    cases hname
  | ok x => exact hf x rfl e name he hname

/-- An attempt that asks for nothing stops for no name. -/
theorem settled {P : α → Prop} {a : Attempt α} (h : Settled P a) : StopsFor kind a := by
  intro e name he hname
  rw [h.asked? he] at hname
  cases hname

/-- An attempt that depends on a test stops only for names of a kind if both of its branches do. -/
theorem ite {c : Prop} [Decidable c] {a a' : Attempt α} (hpos : c → StopsFor kind a)
    (hneg : ¬c → StopsFor kind a') : StopsFor kind (if c then a else a') := by
  by_cases h : c
  · rw [if_pos h]
    exact hpos h
  · rw [if_neg h]
    exact hneg h

/-- A refusal stops for no name. -/
theorem refuse (s : Site) (name : String) (cause : ChoiceFault) :
    StopsFor kind (s.refuse name cause : Attempt α) := by
  intro e other he hother
  unfold Site.refuse at he
  split at he <;> cases he <;> cases hother

/-- Asking for a missing selection stops for its name. -/
theorem missing (s : Site) {d : Decision} (h : kind d.name) :
    StopsFor kind (s.missing d : Attempt α) := by
  intro e name he hname
  unfold Site.missing at he
  split at he
  · cases he
    cases hname
  · cases he
    exact Option.some.inj hname ▸ h

/-- Doing nothing stops for no name. -/
theorem pure (x : α) : StopsFor kind (Pure.pure x : Attempt α) := fun _ _ he => by cases he

end StopsFor

namespace Site

variable (s : Site) (x : Session)

/-- A choice of one option stops only for its own name. -/
theorem chooseOne_stopsFor (bind : String) (options : Query) :
    StopsFor (fun name => s.bindings.fill bind = .ok name) (s.chooseOne x bind options) := by
  refine .bindLift (fun name hname => .bindLift (fun domain _ => ?_))
  split
  · exact .missing s hname
  · split
    · exact .refuse s _ _
    · exact .pure _

/-- A choice of several options stops only for its own name. -/
theorem chooseN_stopsFor (bind : String) (options : Query) (c : Cardinality) :
    StopsFor (fun name => s.bindings.fill bind = .ok name) (s.chooseN x bind options c) := by
  refine .bindLift (fun name hname => .bindLift (fun domain _ => .bindLift (fun p _ => ?_)))
  refine .ite (fun _ => .settled (P := fun _ => True) (.fail s _)) (fun _ => ?_)
  dsimp only
  split
  · exact .missing s hname
  · split
    · exact .refuse s _ _
    · exact .pure _
  · exact .refuse s _ _

end Site

/-- What stops only for the name of its own needs no other. -/
theorem Counts.choice {s : Site} {x : Session} {bind : String} {a : Bindings → Attempt Bindings}
    (hstops : ∀ c, StopsFor (fun name => c.fill bind = .ok name) (a c)) :
    Counts Halt.asked? s.bindings x.ops (fun p => p.1.ops + 1)
      (fun c => do return (x, ← a c)) := by
  intro y hy names hnames
  obtain ⟨b, -, hy⟩ := bind_eq_ok hy
  cases hy
  -- With fewer names in scope, the name of the choice is filled in alike.
  have hfill : ∀ name ∈ names, s.bindings.fill bind = .ok name := by
    intro name hname
    obtain ⟨p, c, hc, e, he, hasked⟩ := hnames name hname
    cases hac : a c with
    | error e' =>
      dsimp only at he
      rw [hac] at he
      cases he
      exact (Bindings.fill_stays hc bind).eq_ok (hstops c e name hac hasked)
    | ok b =>
      dsimp only at he
      rw [hac] at he
      cases he
  have hcard : names.card ≤ 1 := by
    apply Finset.card_le_one.2
    intro name hname other hother
    have hsame := (hfill name hname).symm.trans (hfill other hother)
    exact Except.ok.inj hsame
  dsimp only
  omega

/-- Paying for an effect counts exactly one operation. -/
theorem Site.spend_ops (s : Site) (x : Session) :
    Settled (fun y => y.ops = x.ops + 1) (s.spend x) := by
  rcases s.spend_cases x with ⟨h, hspend⟩ | ⟨-, fault, hfault⟩
  · rw [hspend]
    exact .ok (Session.ops_tick h)
  · rw [hfault]
    trivial

/-! ## Runs -/

section

variable {s : Site} {x : Session}

/-- An effect that only alters the session counts one operation and stops for no name. -/
theorem keepBindings_counts {a : Bindings → Attempt Session}
    (h : ∀ c, Settled (Altered s.setting x) (a c)) :
    Counts Halt.asked? s.bindings x.ops (fun p => p.1.ops + 1)
      (fun c => keepBindings (s.under c) (a c)) := by
  refine .quiet (fun y hy => ?_) (fun c e he => ?_)
  · obtain ⟨z, hz, hy⟩ := bind_eq_ok hy
    cases hy
    exact Nat.le_trans (Nat.le_of_eq ((h _).of_ok hz).ops_eq.symm) (Nat.le_succ _)
  · have hsettled : Settled (fun _ => True) (keepBindings (s.under c) (a c)) :=
      (h c).bind (fun _ _ => trivial)
    exact hsettled.asked? he

/-- A body whose bindings are forgotten at its end. -/
theorem forget_counts {b : Bindings} {n : Nat} {a : Bindings → Attempt (Session × Bindings)}
    (h : Counts Halt.asked? b n (fun p => p.1.ops) a) :
    Counts Halt.asked? b n (fun p => p.1.ops + 1) (fun c => a c >>= fun p => pure (p.1, c)) :=
  .bindPure _ h (fun _ => Nat.le_succ _)

/-- Where only names come in, a run comes to the same session. -/
theorem runAll_adding {p c : Bindings} {es : List Effect} {i : Nat} {y : Session} {d : Bindings}
    (hc : (Widening.adding p).Below c s.bindings)
    (h : Effect.runAll es (s.under c) i x = .ok (y, d)) :
    ∃ d', Effect.runAll es s i x = .ok (y, d') ∧ (Widening.adding p).Below d d' := by
  have hpaired := Effect.runAll_paired es (s.under c) i hc (Widening.inStep_refl x)
  obtain ⟨⟨y', d'⟩, hy, hstep, hbelow⟩ := hpaired.of_ok h
  cases hstep.eq
  exact ⟨d', hy, hbelow⟩

end

mutual

/-- An effect that has been paid for needs at most one name more than it spends operations. -/
theorem Effect.run_counts (e : Effect) (s : Site) (x : Session) :
    Counts Halt.asked? s.bindings x.ops (fun p => p.1.ops + 1) (fun c => e.run (s.under c) x) := by
  cases e with
  | setVar target name value =>
    exact keepBindings_counts (fun c => .lift (fun _ => (s.under c).setVar_altered x))
  | addVar target name delta =>
    exact keepBindings_counts (fun c => .lift (fun _ => (s.under c).addVar_altered x))
  | moveToken token source target place =>
    exact keepBindings_counts (fun c => (s.under c).moveToken_altered x token source target place)
  | moveAll source target filter =>
    exact keepBindings_counts (fun c => (s.under c).moveAll_altered x source target filter)
  | moveTokenAdjacent token source target place =>
    exact keepBindings_counts
      (fun c => (s.under c).moveTokenAdjacent_altered x token source target place)
  | draw source target count =>
    exact keepBindings_counts (fun c => (s.under c).draw_altered x source target count)
  | shuffle zone =>
    exact keepBindings_counts (fun c => .lift (fun _ => (s.under c).shuffle_altered x))
  | createToken type zone props =>
    exact keepBindings_counts (fun c => .lift (fun _ => (s.under c).createToken_altered x))
  | destroyToken token =>
    exact keepBindings_counts (fun c => (s.under c).destroyToken_altered x token)
  | setTokenProp token prop value =>
    exact keepBindings_counts (fun c => (s.under c).setTokenProp_altered x token prop value)
  | setMarker space marker state =>
    exact keepBindings_counts (fun c => (s.under c).setMarker_altered x space marker state)
  | ifThenElse when yes no =>
    simp only [Effect.run]
    refine .bindLift (fun p c hc => when.eval_stays (v := (s.under c).view x) hc) (fun holds => ?_)
    cases holds with
    | true => exact forget_counts (Effect.runAll_counts yes (s.enter "then") 0 x)
    | false => exact forget_counts (Effect.runAll_counts no (s.enter "else") 0 x)
  | forEach bind source body limit =>
    simp only [Effect.run]
    refine .bindLift (fun p c hc => source.eval_stays (v := (s.under c).view x) hc)
      (fun items => ?_)
    refine .bindSettled (fun _ => x.ops) (fun c => (s.under c).loopLimit_settled x limit)
      (fun _ _ => Nat.le_refl _) (fun p c n hc hn => ?_) (fun limit _ => ?_)
    · obtain ⟨_, hn', rfl⟩ :=
        ((s.under c).loopLimit_stays hc (Widening.inStep_refl x) limit).of_ok hn
      exact hn'
    · refine Counts.bindPure Session.ops ?_ (fun _ => Nat.le_succ _)
      refine Counts.foldlM (fun i y => ?_) (fun p c i y z hc hz => ?_) _ x
      · exact .bindPure _ (.inner bind i.1 (Effect.runAll_counts body (s.each bind i.1 i.2) 0 y))
          (fun _ => Nat.le_refl _)
      · obtain ⟨⟨z', d⟩, hbody, hz⟩ := bind_eq_ok hz
        cases hz
        obtain ⟨d', hbody', -⟩ := runAll_adding (s := s.each bind i.1 i.2) (hc.bind bind i.1) hbody
        exact bind_ok hbody' rfl
  | letIn bind value body =>
    simp only [Effect.run]
    refine .bindLift (fun p c hc => value.eval_stays (v := (s.under c).view x) hc) (fun value => ?_)
    exact forget_counts
      (.inner bind value (Effect.runAll_counts body ((s.bind bind value).enter "in") 0 x))
  | reduce source item acc initial next result body =>
    simp only [Effect.run]
    refine .bindLift (fun p c hc => (s.under c).foldQuery_stays hc (Widening.inStep_refl x) source
      item acc initial next) (fun value => ?_)
    exact forget_counts
      (.inner result value (Effect.runAll_counts body ((s.bind result value).enter "in") 0 x))
  | rollRandom bind min max body =>
    simp only [Effect.run]
    refine .bindSettled (fun p : Int64 × Session => p.2.ops)
      (P := fun p : Int64 × Session => Altered s.setting x p.2)
      (fun c => (s.under c).roll_altered x min max) (fun p hp => Nat.le_of_eq hp.ops_eq.symm)
      (fun p c y hc hy => ?_) (fun y _ => ?_)
    · obtain ⟨y', hy', hn, hstep⟩ :=
        ((s.under c).roll_paired hc (Widening.inStep_refl x) min max).of_ok hy
      rwa [Prod.ext hn hstep.eq] at hy'
    · exact forget_counts (.inner bind (.int y.1)
        (Effect.runAll_counts body ((s.bind bind (.int y.1)).enter "in") 0 y.2))
  | removeByPriority budget groups countBind body =>
    simp only [Effect.run]
    refine .bindSettled (fun p : Nat × Session => p.2.ops)
      (P := fun p : Nat × Session => Altered s.setting x p.2)
      (fun c => (s.under c).removeByPriority_altered x budget groups)
      (fun p hp => Nat.le_of_eq hp.ops_eq.symm) (fun p c y hc hy => ?_) (fun y _ => ?_)
    · obtain ⟨y', hy', hn, hstep⟩ :=
        ((s.under c).removeByPriority_paired hc (Widening.inStep_refl x) budget groups).of_ok hy
      rwa [Prod.ext hn hstep.eq] at hy'
    · cases countBind with
      | none => exact forget_counts (Effect.runAll_counts body (s.enter "in") 0 y.2)
      | some name =>
        exact forget_counts (.inner name (.int (Int64.ofNat y.1)) (Effect.runAll_counts body
          ((s.bind name (.int (Int64.ofNat y.1))).enter "in") 0 y.2))
  | chooseOne bind options =>
    simp only [Effect.run]
    exact .choice (fun c => (s.under c).chooseOne_stopsFor x bind options)
  | chooseN bind options cardinality =>
    simp only [Effect.run]
    exact .choice (fun c => (s.under c).chooseN_stopsFor x bind options cardinality)
  | grantFreeOperation offer =>
    exact keepBindings_counts (fun c => (s.under c).grantFreeOperation_altered x offer)
  | setEligibilityOverride seat eligible =>
    exact keepBindings_counts (fun c => (s.under c).setEligibilityOverride_altered x seat eligible)
  | pushInterruptPhase phase =>
    exact keepBindings_counts (fun c => (s.under c).pushInterruptPhase_altered x phase)

/-- Effects that run one after the other need no more names than they spend operations. -/
theorem Effect.runAll_counts (es : List Effect) (s : Site) (i : Nat) (x : Session) :
    Counts Halt.asked? s.bindings x.ops (fun p => p.1.ops)
      (fun c => Effect.runAll es (s.under c) i x) := by
  cases es with
  | nil =>
    simp only [Effect.runAll]
    exact .quiet (fun y hy => by cases hy; exact Nat.le_refl _) (fun _ _ he => by cases he)
  | cons e es =>
    simp only [Effect.runAll]
    refine .bindSettled (fun y => y.ops - 1) (P := fun y => y.ops = x.ops + 1)
      (fun c => ((s.under c).entry i e).spend_ops x) (fun y hy => by omega) (fun _ _ _ _ h => h)
      (fun y hy => ?_)
    intro z hz names hnames
    obtain ⟨⟨mid, d⟩, hmid, hz⟩ := bind_eq_ok hz
    have hrun := Effect.run_counts e (s.entry i e) y _ hmid
    have hrest (ns : Finset String)
        (hns : ∀ name ∈ ns, Needs Halt.asked? d
          (fun c => Effect.runAll es { s with bindings := c } (i + 1) mid) name) :
        mid.ops + 1 + ns.card ≤ z.1.ops + 1 := by
      have hcount := Effect.runAll_counts es { s with bindings := d } (i + 1) mid z hz ns hns
      dsimp only at hcount
      omega
    have hall : y.ops + names.card ≤ z.1.ops + 1 := by
      refine Counts.split (fun name hname => ?_) hrun hrest
      -- The run that lacks the name stops in the first effect or goes on from the same session.
      obtain ⟨p, c, hc, halt, he, hasked⟩ := hnames name hname
      dsimp only at he
      cases hac : e.run ((s.under c).entry i e) y with
      | error halt' =>
        rw [hac] at he
        cases he
        exact .inl ⟨p, c, hc, halt, hac, hasked⟩
      | ok w =>
        rw [hac] at he
        have hpaired := Effect.run_paired e ((s.under c).entry i e) hc (Widening.inStep_refl y)
        obtain ⟨w', hw', hstep, hbelow⟩ := hpaired.of_ok hac
        cases hw'.symm.trans hmid
        obtain ⟨_, c'⟩ := w
        cases hstep.eq
        exact .inr ⟨p, c', hbelow, halt, he, hasked⟩
    dsimp only at hall ⊢
    omega

end

/-- A whole run needs no more names than it spends operations. -/
theorem Session.run_counts (x : Session) (setting : Setting) (root : String) (b : Bindings)
    (effects : List Effect) :
    Counts Halt.asked? b x.ops Session.ops (fun c => x.run setting root c effects) :=
  .bindPure _ (Effect.runAll_counts effects { setting, path := root, bindings := b } 0 x)
    (fun _ => Nat.le_refl _)

end Tabletop
