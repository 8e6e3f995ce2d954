import Tabletop.Proofs.Paired.Effects

/-!
# Runs of effects, side by side

Effects that run with names below their bindings do what they did without, up to the first selection
that they miss there.  If that selection is among the names below, they go on and find it fitting,
or they do not succeed.

Main statements: `Effect.runAll_paired`, for effects that run one after the other, and
`Session.run_paired`, for a whole run.
-/

namespace Tabletop

/-! ## Choices -/

namespace Bindings

variable {w : Widening} {b b' : Bindings}

/-- What is left of a name is filled in alike when names come in below. -/
theorem fillFrom_stays (h : w.Below b b') :
    ∀ (key : Option (List Char)) (cs : List Char), Stays (b.fillFrom key cs) (b'.fillFrom key cs)
  | none, [] => .refl _
  | some _, [] => .refl _
  | none, c :: cs => by
    rw [fillFrom, fillFrom]
    refine Paired.ite (fun _ => ?_) (fun _ => ?_)
    · exact fillFrom_stays h _ cs
    · exact (fillFrom_stays h none cs).bind (fun _ => .refl _)
  | some key, c :: cs => by
    rw [fillFrom, fillFrom]
    refine Paired.ite (fun _ => ?_) (fun _ => ?_)
    · refine Stays.bind (h.orFault_stays _ _) (fun _ => ?_)
      exact (fillFrom_stays h none cs).bind (fun _ => .refl _)
    · exact fillFrom_stays h _ cs

/-- The placeholders of a name are filled in alike when names come in below. -/
theorem fill_stays (h : w.Below b b') (name : String) : Stays (b.fill name) (b'.fill name) := by
  have hfill := fillFrom_stays h none name.toList
  unfold fill
  cases hx : b.fillFrom none name.toList with
  | error e => exact Stays.fault
  | ok cs =>
    rw [hfill.eq_ok hx]
    exact .refl _

end Bindings

namespace Site

variable {w : Widening} (s : Site) {x x' : Session} {b' : Bindings}

/-- A selection that does not fit does not fit either with more names below. -/
theorem refuse_paired {α β : Type} {R : α → β → Prop} (b' : Bindings) (name : String)
    (cause : ChoiceFault) :
    Paired (Halt.sense w) R (s.refuse name cause) ((w.site s b').refuse name cause) := by
  unfold refuse
  rw [Widening.site_mode]
  cases s.setting.mode with
  | strict => exact s.fail_paired _
  | discover => exact rfl

/-- A refusal is no success. -/
theorem refuse_ne_ok {α : Type} (name : String) (cause : ChoiceFault) (y : α) :
    s.refuse name cause ≠ .ok y := by
  unfold refuse
  split <;> exact fun h => by cases h

/-- A selection that is missing is missing with more names below, or it is among them and answers
the decision if the run succeeds. -/
theorem missing_paired {α β : Type} {R : α → β → Prop} (b' : Bindings) (d : Decision)
    {b : Attempt β} (hnone : w.params.get? d.name = none → b = (w.site s b').missing d)
    (hsome : ∀ x, w.params.get? d.name = some x → ∀ y, b = .ok y → d.Takes x) :
    Paired (Halt.sense w) R (s.missing d) b := by
  unfold missing at hnone ⊢
  rw [Widening.site_mode] at hnone
  cases hmode : s.setting.mode with
  | strict => exact s.fail_paired _
  | discover =>
    rw [hmode] at hnone
    exact Missing.mk hnone hsome

/-- A choice of one binds alike in sessions in step, unless its selection comes in below. -/
theorem chooseOne_paired (hb : w.Below s.bindings b') (hx : w.InStep x x') (bind : String)
    (options : Query) :
    Paired (Halt.sense w) w.Below (s.chooseOne x bind options)
      ((w.site s b').chooseOne x' bind options) := by
  obtain ⟨trace, rfl, -⟩ := hx
  refine Paired.bind (Bindings.fill_stays hb bind).attempt ?_
  rintro name _ rfl
  refine Paired.bind (options.eval_stays (v := s.view x) hb).attempt ?_
  rintro domain _ rfl
  cases hx : s.bindings.get? name with
  | some selected =>
    have hx' : (w.site s b').bindings.get? name = some selected := hb.get?_of_some hx
    rw [hx']
    dsimp only
    cases domain.find? (fun option => option.same selected) with
    | none => exact s.refuse_paired b' _ _
    | some option => exact .pure (hb.bindChoice bind name option)
  | none =>
    have hx' : (w.site s b').bindings.get? name = w.params.get? name := hb.get?_of_none hx
    rw [hx']
    refine s.missing_paired b' _ (fun hnone => ?_) (fun selected hsome y hy => ?_)
    · exact hnone ▸ rfl
    · change w.params.get? name = some selected at hsome
      rw [hsome] at hy
      dsimp only at hy
      cases hfound : domain.find? (fun option => option.same selected) with
      | none =>
        rw [hfound] at hy
        exact absurd hy (refuse_ne_ok _ _ _ _)
      | some option =>
        have hsame := List.find?_some hfound
        exact ⟨option, List.mem_of_find?_eq_some hfound, hsame⟩

/-- How many may be chosen is the same in sessions in step. -/
theorem bounds_stays (hb : w.Below s.bindings b') (hx : w.InStep x x') (c : Cardinality)
    (size : Nat) : Stays (s.bounds x c size) ((w.site s b').bounds x' c size) := by
  obtain ⟨trace, rfl, -⟩ := hx
  have heval := fun (e : Expr) => e.evalInt_stays (v := s.view x) hb
  unfold bounds
  cases c.exactly with
  | some n => exact (heval n).bind (fun _ => .refl _)
  | none =>
    dsimp only
    cases c.atLeast with
    | none =>
      cases c.atMost with
      | none => exact .refl _
      | some e => exact (heval e).bind (fun _ => .refl _)
    | some least =>
      refine (heval least).bind (fun _ => ?_)
      cases c.atMost with
      | none => exact .refl _
      | some e => exact (heval e).bind (fun _ => .refl _)

/-- A choice of several binds alike in sessions in step, unless its selection comes in below. -/
theorem chooseN_paired (hb : w.Below s.bindings b') (hx : w.InStep x x') (bind : String)
    (options : Query) (c : Cardinality) :
    Paired (Halt.sense w) w.Below (s.chooseN x bind options c)
      ((w.site s b').chooseN x' bind options c) := by
  have hbounds := bounds_stays s hb hx c
  obtain ⟨trace, rfl, -⟩ := hx
  refine Paired.bind (Bindings.fill_stays hb bind).attempt ?_
  rintro name _ rfl
  refine Paired.bind (options.eval_stays (v := s.view x) hb).attempt ?_
  rintro domain _ rfl
  refine Paired.bind (hbounds _).attempt ?_
  rintro ⟨min, max⟩ _ rfl
  refine Paired.ite (fun _ => s.fail_paired _) (fun _ => ?_)
  dsimp only
  cases hx : s.bindings.get? name with
  | some selected =>
    have hx' : (w.site s b').bindings.get? name = some selected := hb.get?_of_some hx
    rw [hx']
    cases selected with
    | scalar y => exact s.refuse_paired b' _ _
    | token id => exact s.refuse_paired b' _ _
    | array xs =>
      dsimp only
      cases choiceFault? name domain min.toInt.toNat max.toInt.toNat xs with
      | some fault => exact s.refuse_paired b' _ _
      | none => exact .pure (hb.bindChoice bind name (.array xs))
  | none =>
    have hx' : (w.site s b').bindings.get? name = w.params.get? name := hb.get?_of_none hx
    rw [hx']
    refine s.missing_paired b' _ (fun hnone => ?_) (fun selected hsome y hy => ?_)
    · exact hnone ▸ rfl
    · change w.params.get? name = some selected at hsome
      rw [hsome] at hy
      cases selected with
      | scalar z => exact absurd hy (refuse_ne_ok _ _ _ _)
      | token id => exact absurd hy (refuse_ne_ok _ _ _ _)
      | array xs =>
        dsimp only at hy
        cases hfault : choiceFault? name domain min.toInt.toNat max.toInt.toNat xs with
        | none => exact ⟨xs, rfl, hfault⟩
        | some fault =>
          rw [hfault] at hy
          exact absurd hy (refuse_ne_ok _ _ _ _)

/-- Paying for an operation keeps sessions in step: a larger budget is enough wherever the first
was. -/
theorem spend_paired (hx : w.InStep x x') :
    Paired (Halt.sense w) w.InStep (s.spend x) ((w.site s b').spend x') := by
  obtain ⟨trace, rfl, htrace⟩ := hx
  rcases s.spend_cases x with ⟨h, hspend⟩ | ⟨-, fault, hfault⟩
  · have h' : (w.session x trace).ops < (w.site s b').setting.maxOps.toNat :=
      Nat.lt_of_lt_of_le h (w.maxOps_le _)
    rw [hspend, spend_of_lt h']
    exact .ok ⟨trace, rfl, htrace⟩
  · rw [hfault]
    exact .error trivial

/-- The limit of a loop is the same in sessions in step. -/
theorem loopLimit_stays (hb : w.Below s.bindings b') (hx : w.InStep x x') (limit : Option Expr) :
    Paired (Halt.sense w) Eq (s.loopLimit x limit) ((w.site s b').loopLimit x' limit) := by
  obtain ⟨trace, rfl, -⟩ := hx
  cases limit with
  | none => exact .pure rfl
  | some e =>
    refine Paired.bind (e.evalInt_stays (v := s.view x) hb).attempt ?_
    rintro n _ rfl
    exact Paired.ite (fun _ => s.fail_paired _) (fun _ => .pure rfl)

/-- A fold over items comes to the same in sessions in step. -/
theorem foldItems_stays (hb : w.Below s.bindings b') (hx : w.InStep x x') (item acc : String)
    (next : Expr) :
    ∀ (items : List Value) (value : Value), Stays (s.foldItems x item acc next items value)
      ((w.site s b').foldItems x' item acc next items value)
  | [], _ => .refl _
  | i :: is, value => by
    have hrest := foldItems_stays hb hx item acc next is
    obtain ⟨trace, rfl, -⟩ := hx
    have hbind := (hb.bind item i).bind acc value
    refine Stays.bind ?_ (fun value => hrest value)
    exact next.eval_stays (v := ((s.bind item i).bind acc value).view x) hbind

/-- A fold over a query comes to the same in sessions in step. -/
theorem foldQuery_stays (hb : w.Below s.bindings b') (hx : w.InStep x x') (source : Query)
    (item acc : String) (initial next : Expr) :
    Stays (s.foldQuery x source item acc initial next)
      ((w.site s b').foldQuery x' source item acc initial next) := by
  have hfold := foldItems_stays s hb hx item acc next
  obtain ⟨trace, rfl, -⟩ := hx
  refine Stays.bind (source.eval_stays (v := s.view x) hb) (fun items => ?_)
  exact Stays.bind (initial.eval_stays (v := s.view x) hb) (fun value => hfold items value)

/-- A drawn integer and a session that are in step. -/
abbrev DrawInStep (w : Widening) (p p' : Int64 × Session) : Prop :=
  p'.1 = p.1 ∧ w.InStep p.2 p'.2

/-- Drawing a number keeps sessions in step and draws the same. -/
theorem roll_paired (hb : w.Below s.bindings b') (hx : w.InStep x x') (min max : Expr) :
    Paired (Halt.sense w) (DrawInStep w) (s.roll x min max) ((w.site s b').roll x' min max) := by
  have hstate := fun t => hx.withState t
  obtain ⟨trace, rfl, -⟩ := hx
  refine Paired.bind (min.evalInt_stays (v := s.view x) hb).attempt ?_
  rintro min _ rfl
  refine Paired.bind (max.evalInt_stays (v := s.view x) hb).attempt ?_
  rintro max _ rfl
  exact Paired.ite (fun _ => s.fail_paired _) (fun _ => .pure ⟨rfl, hstate _⟩)

/-- Removing by priority keeps sessions in step and removes as many. -/
theorem removeByPriority_paired (hb : w.Below s.bindings b') (hx : w.InStep x x') (budget : Expr)
    (groups : List PriorityGroup) :
    Paired (Halt.sense w) (CountInStep w) (s.removeByPriority x budget groups)
      ((w.site s b').removeByPriority x' budget groups) := by
  have hgroups := fun total => removeGroups_paired s hb groups total hx
  obtain ⟨trace, rfl, -⟩ := hx
  refine Paired.bind (budget.evalInt_stays (v := s.view x) hb).attempt ?_
  rintro budget _ rfl
  refine Paired.ite (fun _ => s.fail_paired _) (fun _ => ?_)
  refine Paired.bind (hgroups _) ?_
  rintro ⟨_, y⟩ ⟨left, y'⟩ ⟨rfl, hy⟩
  exact .pure ⟨rfl, hy⟩

end Site

/-! ## Runs -/

/-- Sessions that are in step, and bindings with the additional names below. -/
abbrev Widening.Follows (w : Widening) (p p' : Session × Bindings) : Prop :=
  w.InStep p.1 p'.1 ∧ w.Below p.2 p'.2

section

variable {w : Widening} {s : Site} {b' : Bindings}

/-- What binds nothing for the effects after it. -/
theorem keepBindings_paired (hb : w.Below s.bindings b') {a a' : Attempt Session}
    (h : Paired (Halt.sense w) w.InStep a a') :
    Paired (Halt.sense w) w.Follows (keepBindings s a) (keepBindings (w.site s b') a') :=
  h.bind (fun _ _ hy => .pure ⟨hy, hb⟩)

/-- A body whose bindings are forgotten at its end. -/
theorem forget_paired (hb : w.Below s.bindings b') {a a' : Attempt (Session × Bindings)}
    (h : Paired (Halt.sense w) w.Follows a a') :
    Paired (Halt.sense w) w.Follows (a >>= fun p => Pure.pure (p.1, s.bindings))
      (a' >>= fun p => Pure.pure (p.1, b')) :=
  h.bind (fun _ _ hy => .pure ⟨hy.1, hb⟩)

end

mutual

/-- An effect does what it did. -/
theorem Effect.run_paired {w : Widening} (e : Effect) (s : Site) {x x' : Session} {b' : Bindings}
    (hb : w.Below s.bindings b') (hx : w.InStep x x') :
    Paired (Halt.sense w) w.Follows (e.run s x) (e.run (w.site s b') x') := by
  cases e with
  | setVar target name value =>
    exact keepBindings_paired hb (s.setVar_paired hb hx target name value).attempt
  | addVar target name delta =>
    exact keepBindings_paired hb (s.addVar_paired hb hx target name delta).attempt
  | moveToken token source target place =>
    exact keepBindings_paired hb (s.moveToken_paired hb hx token source target place)
  | moveAll source target filter =>
    exact keepBindings_paired hb (s.moveAll_paired hb hx source target filter)
  | moveTokenAdjacent token source target place =>
    exact keepBindings_paired hb (s.moveTokenAdjacent_paired hb hx token source target place)
  | draw source target count =>
    exact keepBindings_paired hb (s.draw_paired hb hx source target count)
  | shuffle zone => exact keepBindings_paired hb (s.shuffle_paired hb hx zone).attempt
  | createToken type zone props =>
    exact keepBindings_paired hb (s.createToken_paired hb hx type zone props).attempt
  | destroyToken token => exact keepBindings_paired hb (s.destroyToken_paired hb hx token)
  | setTokenProp token prop value =>
    exact keepBindings_paired hb (s.setTokenProp_paired hb hx token prop value)
  | setMarker space marker state =>
    exact keepBindings_paired hb (s.setMarker_paired hb hx space marker state)
  | ifThenElse when yes no =>
    have hyes := Effect.runAll_paired yes (s.enter "then") 0 hb hx
    have hno := Effect.runAll_paired no (s.enter "else") 0 hb hx
    obtain ⟨trace, rfl, -⟩ := hx
    rw [Effect.run, Effect.run]
    refine Paired.bind (when.eval_stays (v := s.view x) hb).attempt ?_
    rintro holds _ rfl
    exact Paired.ite (fun _ => forget_paired hb hyes) (fun _ => forget_paired hb hno)
  | forEach bind source body limit =>
    have hlimit := s.loopLimit_stays hb hx limit
    have hfold := fun items => Paired.foldlM
      (f := fun x (i : Value × Nat) => do
        let (x, _) ← Effect.runAll body (s.each bind i.1 i.2) 0 x
        return x)
      (g := fun x (i : Value × Nat) => do
        let (x, _) ← Effect.runAll body ((w.site s b').each bind i.1 i.2) 0 x
        return x)
      (fun i y y' hy => (Effect.runAll_paired body (s.each bind i.1 i.2) 0
        (hb.bind bind i.1) hy).bind (fun _ _ hz => .pure hz.1)) items hx
    obtain ⟨trace, rfl, -⟩ := hx
    rw [Effect.run, Effect.run]
    refine Paired.bind (source.eval_stays (v := s.view x) hb).attempt ?_
    rintro items _ rfl
    refine Paired.bind hlimit ?_
    rintro limit _ rfl
    exact (hfold _).bind (fun _ _ hy => .pure ⟨hy, hb⟩)
  | letIn bind value body =>
    have hbody := fun value => Effect.runAll_paired body ((s.bind bind value).enter "in") 0
      (hb.bind bind value) hx
    obtain ⟨trace, rfl, -⟩ := hx
    rw [Effect.run, Effect.run]
    refine Paired.bind (value.eval_stays (v := s.view x) hb).attempt ?_
    rintro value _ rfl
    exact forget_paired hb (hbody value)
  | reduce source item acc initial next result body =>
    have hbody := fun value => Effect.runAll_paired body ((s.bind result value).enter "in") 0
      (hb.bind result value) hx
    rw [Effect.run, Effect.run]
    refine Paired.bind (s.foldQuery_stays hb hx source item acc initial next).attempt ?_
    rintro value _ rfl
    exact forget_paired hb (hbody value)
  | rollRandom bind min max body =>
    rw [Effect.run, Effect.run]
    refine Paired.bind (s.roll_paired hb hx min max) ?_
    rintro ⟨_, y⟩ ⟨n, y'⟩ ⟨rfl, hy⟩
    exact forget_paired hb (Effect.runAll_paired body ((s.bind bind (.int n)).enter "in") 0
      (hb.bind bind (.int n)) hy)
  | removeByPriority budget groups countBind body =>
    rw [Effect.run, Effect.run]
    refine Paired.bind (s.removeByPriority_paired hb hx budget groups) ?_
    rintro ⟨_, y⟩ ⟨count, y'⟩ ⟨rfl, hy⟩
    cases countBind with
    | none => exact forget_paired hb (Effect.runAll_paired body (s.enter "in") 0 hb hy)
    | some name =>
      exact forget_paired hb (Effect.runAll_paired body
        ((s.bind name (.int (Int64.ofNat count))).enter "in") 0 (hb.bind name _) hy)
  | chooseOne bind options =>
    rw [Effect.run, Effect.run]
    exact (s.chooseOne_paired hb hx bind options).bind (fun _ _ hc => .pure ⟨hx, hc⟩)
  | chooseN bind options cardinality =>
    rw [Effect.run, Effect.run]
    exact (s.chooseN_paired hb hx bind options cardinality).bind (fun _ _ hc => .pure ⟨hx, hc⟩)
  | grantFreeOperation offer =>
    exact keepBindings_paired hb (s.grantFreeOperation_paired hb hx offer)
  | setEligibilityOverride seat eligible =>
    exact keepBindings_paired hb (s.setEligibilityOverride_paired hb hx seat eligible)
  | pushInterruptPhase phase =>
    exact keepBindings_paired hb (s.pushInterruptPhase_paired b' hx phase)

/-- Effects that run one after the other do what they did. -/
theorem Effect.runAll_paired {w : Widening} (es : List Effect) (s : Site) (i : Nat)
    {x x' : Session} {b' : Bindings} (hb : w.Below s.bindings b') (hx : w.InStep x x') :
    Paired (Halt.sense w) w.Follows (Effect.runAll es s i x)
      (Effect.runAll es (w.site s b') i x') := by
  cases es with
  | nil => exact .ok ⟨hx, hb⟩
  | cons e es =>
    rw [Effect.runAll, Effect.runAll]
    refine Paired.bind ((s.entry i e).spend_paired hx) (fun y y' hy => ?_)
    refine Paired.bind (Effect.run_paired e (s.entry i e) hb hy) ?_
    rintro ⟨z, c⟩ ⟨z', c'⟩ ⟨hz, hc⟩
    exact Effect.runAll_paired es { s with bindings := c } (i + 1) hc hz

end

/-- A whole run does what it did. -/
theorem Session.run_paired {w : Widening} {x x' : Session} (setting : Setting) (root : String)
    {b b' : Bindings} (effects : List Effect) (hb : w.Below b b') (hx : w.InStep x x') :
    Paired (Halt.sense w) w.InStep (x.run setting root b effects)
      (x'.run (w.setting setting) root b' effects) :=
  (Effect.runAll_paired effects { setting, path := root, bindings := b } 0 hb hx).bind
    (fun _ _ hy => .pure hy.1)

end Tabletop
