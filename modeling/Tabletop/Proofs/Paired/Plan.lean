import Tabletop.Proofs.Paired.Run

/-!
# Planning, side by side

A move with more selections than another, in the same state but for the fingerprint, is planned
alike, up to the first declared param that the other lacks.

A selector looks at its param before the param is checked, and lets a list of seats pass; the check
of the declared params, which every plan gets through, makes up for that.

Main statement: `Plan.make_paired`.
-/

namespace Tabletop

/-! ## Params as bindings -/

/-- Entries with different keys are found from either end. -/
theorem lookup_reverse {α : Type} {n : String} :
    ∀ {l : List (String × α)}, l.Pairwise (fun a b => a.1 ≠ b.1) →
      l.reverse.lookup n = l.lookup n
  | [], _ => rfl
  | (k, x) :: l, h => by
    have hl := List.pairwise_cons.1 h
    rw [List.reverse_cons, List.lookup_append, lookup_reverse hl.2, List.lookup_cons]
    by_cases hn : n = k
    · subst hn
      have hnone : l.lookup n = none :=
        List.lookup_eq_none_iff.2 (fun e he => bne_iff_ne.2 (hl.1 e he))
      simp [hnone]
    · simp [beq_eq_false_iff_ne.2 hn, List.lookup_cons]

namespace Bindings

/-- Names that are bound one after the other stand on top, the last one first. -/
theorem bindAll_entries (xs : List (String × Value)) (b : Bindings) :
    (b.bindAll xs).entries = xs.reverse ++ b.entries := by
  induction xs generalizing b with
  | nil => rfl
  | cons x xs ih =>
    rw [bindAll, List.foldl_cons, ← bindAll, ih, List.reverse_cons]
    simp [bind]

/-- A param is bound to the value of its selection. -/
theorem get?_ofParams (params : Dict Selection) (name : String) :
    (ofParams params).get? name = (params.get? name).map Value.ofSelection := by
  have hkeys : (params.entries.map (fun e => (e.1, Value.ofSelection e.2))).Pairwise
      (fun a b => a.1 ≠ b.1) := by
    rw [List.pairwise_map]
    exact params.ascending.imp (fun h => String.ne_of_lt h)
  unfold ofParams ofList get? Dict.get?
  rw [bindAll_entries, show (empty : Bindings).entries = [] from rfl, List.append_nil,
    lookup_reverse hkeys]
  induction params.entries with
  | nil => rfl
  | cons e es ih =>
    obtain ⟨k, x⟩ := e
    rw [List.map_cons, List.lookup_cons, List.lookup_cons, ih]
    cases name == k <;> rfl

end Bindings

/-- Different selections stand for different values. -/
theorem Value.ofSelection_injective : Function.Injective Value.ofSelection := by
  intro x y h
  cases x <;> cases y <;> cases h <;> rfl

/-! ## Checks -/

namespace Widening

variable (w : Widening)

/-- The rules with more leeway. -/
def rules (r : Rules) : Rules where
  game := r.game
  limits := {
    maxOps := w.maxOps r.limits.maxOps
    maxTransitions := w.maxTransitions r.limits.maxTransitions
    tracing := w.tracing r.limits.tracing }

/-- More leeway leaves the definition. -/
theorem rules_definition (r : Rules) : (w.rules r).definition = r.definition := rfl

/-- The second move is the first with more selections.  A move that carries a special activity has
the same. -/
structure Moves (m m' : Move) : Prop where
  eq : m' = { m with params := m'.params }
  below : w.Below (.ofParams m.params) (.ofParams m'.params)
  plain : m.compound = none ∨ w.params = ∅ ∧ m' = m

/-- The second plan is the first with more names in scope. -/
def Plans (p p' : Plan) : Prop :=
  ∃ b', p' = { p with bindings := b' } ∧ w.Below p.bindings b' ∧ (p.special = true → w.params = ∅)

end Widening

/-- The value that the host's additional names give a request; a special activity has none. -/
def Widening.settles? (w : Widening) (q : Request) : Option Value :=
  if q.special then none else w.params.get? q.decision.name

/-- What the stop of a move tells about a move with more selections: a refusal and an open decision
are the same there, but for a decision that is settled there by a value that it takes. -/
def Stop.sense (w : Widening) (takes : Decision → Value → Prop) : ErrorSense Stop where
  tells st b :=
    match st with
    | .fault _ => True
    | .refused rejection => b = .error (.refused rejection)
    | .pending q => Missing (.pending q) (w.settles? q) (takes q.decision) b
  tells_bind {_ _ st b} f hb := by
    cases st with
    | fault f => trivial
    | refused rejection => exact hb ▸ rfl
    | pending q => exact hb.bind f
  tells_error {_} st := by
    cases st with
    | fault f => trivial
    | refused rejection => rfl
    | pending q => exact .error _

section

variable {w : Widening} {takes : Decision → Value → Prop} {α β : Type}

/-- A result that stays is paired with itself in a check. -/
theorem Stays.check {a b : Result α} (h : Stays a b) :
    Paired (Stop.sense w takes) Eq (liftM a : Check α) (liftM b : Check α) :=
  Paired.mapError h (fun _ _ => trivial)

/-- A refusal is paired with itself. -/
theorem refuse_paired {R : α → β → Prop} (refusal : Refusal) (action : ActionId) :
    Paired (Stop.sense w takes) R (refuse refusal action) (refuse refusal action) := rfl

/-- A param that is missing is missing with more selections, or it is among them and answers the
decision if the move is resolved. -/
theorem pending_paired {R : α → β → Prop} (q : Request) {b : Check β}
    (hnone : w.settles? q = none → b = .error (.pending q))
    (hsome : ∀ x, w.settles? q = some x → ∀ y, b = .ok y → takes q.decision x) :
    Paired (Stop.sense w takes) R (throw (Stop.pending q)) b := Missing.mk hnone hsome

/-- A check of one move tells more about a check of another when that admits fewer answers. -/
theorem Paired.takesMore {takes' : Decision → Value → Prop} {R : α → β → Prop} {a : Check α}
    {b : Check β} (h : Paired (Stop.sense w takes) R a b)
    (hb : ∀ q x y, a = .error (.pending q) → w.settles? q = some x → b = .ok y →
      takes q.decision x → takes' q.decision x) :
    Paired (Stop.sense w takes') R a b := by
  cases a with
  | ok x => exact h
  | error st =>
    cases st with
    | fault f => trivial
    | refused rejection => exact h
    | pending q =>
      have hmissing : Missing _ _ (takes q.decision) b := h
      exact pending_paired q hmissing.none
        (fun x hq y hy => hb q x y rfl hq hy (hmissing.some x hq y hy))

end

/-! ## Planning -/

/-- The selection of the one move is that of the other, or it comes in with the additional names. -/
theorem Move.selection_cases {w : Widening} {m m' : Move}
    (h : w.Below (.ofParams m.params) (.ofParams m'.params)) (name : String) :
    (∃ x, m.params.get? name = some x ∧ m'.params.get? name = some x) ∨
      (m.params.get? name = none ∧
        w.params.get? name = (m'.params.get? name).map Value.ofSelection) := by
  have hname := h name
  rw [Bindings.get?_ofParams, Bindings.get?_ofParams] at hname
  cases hm : m.params.get? name with
  | none =>
    rw [hm] at hname
    exact .inr ⟨rfl, hname.symm⟩
  | some x =>
    rw [hm] at hname
    obtain ⟨y, hy, hxy⟩ := Option.map_eq_some_iff.1 hname
    exact .inl ⟨x, rfl, hy.trans (congrArg some (Value.ofSelection_injective hxy))⟩

/-- Where no decision of a special activity is widened, the names settle as they say. -/
theorem Widening.settles?_eq {w : Widening} {q : Request} (hq : q.special = true → w.params = ∅) :
    w.settles? q = w.params.get? q.decision.name := by
  unfold Widening.settles?
  split
  · rename_i hs
    rw [hq hs]
    rfl
  · rfl

namespace Plan

variable {w : Widening} {v : View} {b' : Bindings} {m m' : Move} {special : Bool}

/-- The domain of a param stays the same when names come in below. -/
theorem domain_stays (p : Param) (h : w.Below v.bindings b') :
    Stays (domain p v) (domain p (w.view v b')) :=
  .inPredicate _ (p.domain.eval_stays h)

/-- A scalar that is in a domain answers the question for one of its values. -/
theorem takes_of_isIn {p : Param} {values : List Value} {x : Scalar} (h : x.isIn values) :
    (p.decision values).Takes (.scalar x) := by
  obtain ⟨option, hmem, hid⟩ := List.any_eq_true.1 h
  refine ⟨option, hmem, ?_⟩
  have hid' : option.identity? = some x := by simpa using hid
  rw [Value.same, hid']
  exact beq_self_eq_true x

/-- What a declared param may hold while only the selectors have been looked at: an answer to its
question or several values. -/
def Loosely (a : Action) (m : Move) (d : Decision) (x : Value) : Prop :=
  d.Takes x ∨ ∃ p ∈ a.params, ∃ xs, m.params.get? p.name = some (.many xs)

/-- The param that a selector reads is checked alike with more selections, or the first move lacks
it. -/
theorem checkSelected_paired (a : Action) (hm : w.Below (.ofParams m.params) (.ofParams m'.params))
    (hv : w.Below v.bindings b') (hs : special = true → w.params = ∅) (sel : SeatSelector) :
    Paired (Stop.sense w (Loosely a m')) Eq (checkSelected a m special v sel)
      (checkSelected a m' special (w.view v b') sel) := by
  unfold checkSelected
  cases sel with
  | active => exact .refl _
  | any => exact .refl _
  | allOther => exact .refl _
  | id seat => exact .refl _
  | ids seats => exact .refl _
  | binding name =>
    dsimp only
    cases hp : a.param? name with
    | none => exact .refl _
    | some p =>
      have hmem : p ∈ a.params := List.mem_of_find?_eq_some hp
      have hname : p.name = name := by simpa using List.find?_some hp
      refine Paired.bind (domain_stays p hv).check ?_
      rintro values _ rfl
      rcases Move.selection_cases hm name with ⟨x, hx, hx'⟩ | ⟨hx, hw⟩
      · rw [hx, hx']
        exact .refl _
      · rw [hx]
        dsimp only
        refine pending_paired _ (fun hnone => ?_) (fun x hsome y hy => ?_)
        · rw [Widening.settles?_eq hs] at hnone
          change w.params.get? p.name = none at hnone
          rw [hname, hw, Option.map_eq_none_iff] at hnone
          rw [hnone]
          rfl
        · rw [Widening.settles?_eq hs] at hsome
          change w.params.get? p.name = some x at hsome
          rw [hname, hw] at hsome
          obtain ⟨chosen, hchosen, rfl⟩ := Option.map_eq_some_iff.1 hsome
          rw [hchosen] at hy
          cases chosen with
          | many xs => exact .inr ⟨p, hmem, xs, hname ▸ hchosen⟩
          | one x =>
            left
            apply takes_of_isIn
            by_contra hnot
            have hnot' : x.isIn values = false := by simpa using hnot
            simp [Selection.scalars, hnot', refuse] at hy

/-- Declared params are checked alike with more selections, up to the first that the first move
lacks. -/
theorem checkParams_paired (a : Action) (hm : w.Below (.ofParams m.params) (.ofParams m'.params))
    (hv : w.Below v.bindings b') (hs : special = true → w.params = ∅) :
    ∀ ps, Paired (Stop.sense w Decision.Takes) Eq (checkParams a m special v ps)
      (checkParams a m' special (w.view v b') ps)
  | [] => .refl _
  | p :: ps => by
    have hrest := checkParams_paired a hm hv hs ps
    rw [checkParams, checkParams]
    refine Paired.bind (domain_stays p hv).check ?_
    rintro values _ rfl
    rcases Move.selection_cases hm p.name with ⟨x, hx, hx'⟩ | ⟨hx, hw⟩
    · rw [hx, hx']
      cases x with
      | many xs => exact .refl _
      | one x => exact .ite (fun _ => hrest) (fun _ => .refl _)
    · rw [hx]
      dsimp only
      refine pending_paired _ (fun hnone => ?_) (fun x hsome y hy => ?_)
      · rw [Widening.settles?_eq hs] at hnone
        change w.params.get? p.name = none at hnone
        rw [hw, Option.map_eq_none_iff] at hnone
        rw [hnone]
        rfl
      · rw [Widening.settles?_eq hs] at hsome
        change w.params.get? p.name = some x at hsome
        rw [hw] at hsome
        obtain ⟨chosen, hchosen, rfl⟩ := Option.map_eq_some_iff.1 hsome
        rw [hchosen] at hy
        cases chosen with
        | many xs => cases hy
        | one x =>
          apply takes_of_isIn
          by_contra hnot
          dsimp only at hy
          rw [if_neg hnot] at hy
          cases hy

/-- Declared params that pass their check hold one value each. -/
theorem checkParams_single {a : Action} :
    ∀ {ps : List Param}, checkParams a m special v ps = .ok () →
      ∀ p ∈ ps, ∃ x, m.params.get? p.name = some (.one x)
  | [], _, p, hp => absurd hp List.not_mem_nil
  | q :: qs, h, p, hp => by
    rw [checkParams] at h
    obtain ⟨values, -, h⟩ := bind_eq_ok h
    cases hq : m.params.get? q.name with
    | none => rw [hq] at h; cases h
    | some chosen =>
      rw [hq] at h
      cases chosen with
      | many xs => cases h
      | one x =>
        dsimp only at h
        split at h
        · rcases List.mem_cons.1 hp with rfl | hp
          · exact ⟨x, hq⟩
          · exact checkParams_single h p hp
        · cases h

end Plan

/-! ## Seats and pipelines -/

section

variable {w : Widening} {v : View} {b b' : Bindings}

/-- A selector means the same seats when names come in below. -/
theorem SeatSelector.resolve_stays (sel : SeatSelector) (action : ActionId) (active : Seat)
    (count : Nat) (h : w.Below b b') :
    Stays (sel.resolve action active count b) (sel.resolve action active count b') := by
  cases sel with
  | active => exact .refl _
  | any => exact .refl _
  | allOther => exact .refl _
  | id seat => exact .refl _
  | ids seats => cases seats <;> exact .refl _
  | binding name =>
    cases hx : b.get? name with
    | none =>
      simp only [resolve, named, hx]
      exact .fault
    | some x =>
      simp only [resolve, named, hx, h.get?_of_some hx]
      exact .refl _

/-- A selector of one means the same seat when names come in below. -/
theorem SeatSelector.resolveOne_stays (sel : SeatSelector) (action : ActionId) (active : Seat)
    (count : Nat) (h : w.Below b b') :
    Stays (sel.resolveOne action active count b) (sel.resolveOne action active count b') :=
  (sel.resolve_stays action active count h).bind (fun _ => .refl _)

/-- A pipeline applies or not as before when names come in below. -/
theorem Pipeline.applies_stays (p : Pipeline) (h : w.Below v.bindings b') :
    Stays (p.applies v) (p.applies (w.view v b')) :=
  .ite (fun _ => holdsIn_stays _ _ h) (fun _ => .refl _)

/-- The first pipeline that applies stays the same when names come in below. -/
theorem Pipeline.firstApplying?_stays (h : w.Below v.bindings b') :
    ∀ ps, Stays (firstApplying? v ps) (firstApplying? (w.view v b') ps)
  | [] => .refl _
  | p :: ps => (p.applies_stays h).bind
      (fun _ => .ite (fun _ => .refl _) (fun _ => firstApplying?_stays h ps))

/-- The payment of a pipeline stays the same when names come in below. -/
theorem Pipeline.payment_stays (p : Pipeline) (free : Bool) (h : w.Below v.bindings b') :
    Stays (p.payment free v) (p.payment free (w.view v b')) := by
  refine (holdsIn_stays _ _ h).bind (fun _ => .ite (fun _ => ?_) (fun _ => .refl _))
  refine .ite (fun _ => .refl _) (fun _ => ?_)
  exact (holdsIn_stays _ _ h).bind (fun _ => .refl _)

/-- An action is carried out by the same pipeline when names come in below. -/
theorem dispatchPipeline_stays (action : ActionId) (h : w.Below v.bindings b') :
    Stays (dispatchPipeline action v) (dispatchPipeline action (w.view v b')) :=
  (Pipeline.firstApplying?_stays h _).bind (fun _ => .refl _)

end

namespace Plan

variable {w : Widening} {v : View} {b' : Bindings} {m m' : Move} {special : Bool}

/-- Actors and executor are found alike with more selections, or the first move lacks a param that
is read. -/
theorem checkSeats_paired (a : Action) (hm : w.Below (.ofParams m.params) (.ofParams m'.params))
    (hv : w.Below v.bindings b') (hs : special = true → w.params = ∅) :
    Paired (Stop.sense w (Loosely a m')) Eq (checkSeats a m special v)
      (checkSeats a m' special (w.view v b')) := by
  refine (checkSelected_paired a hm hv hs a.actor).bind ?_
  rintro _ _ -
  refine (checkSelected_paired a hm hv hs a.executor).bind ?_
  rintro _ _ -
  refine Paired.bind (a.actor.resolve_stays a.id v.state.active v.state.seatCount hv).check ?_
  rintro actors _ rfl
  refine Paired.bind (a.executor.resolveOne_stays a.id v.state.active v.state.seatCount hv).check ?_
  rintro executor _ rfl
  exact .refl _

/-- The check of a pipeline comes out alike when names come in below. -/
theorem checkPipeline_paired (a : Action) (free : Bool) (hv : w.Below v.bindings b')
    (takes : Decision → Value → Prop) :
    Paired (Stop.sense w takes) Eq (checkPipeline a free v)
      (checkPipeline a free (w.view v b')) := by
  refine Paired.bind (dispatchPipeline_stays a.id hv).check ?_
  rintro dispatch _ rfl
  cases dispatch with
  | plain => exact .refl _
  | unmatched => exact .refl _
  | matched p =>
    refine Paired.bind (p.payment_stays free hv).check ?_
    rintro payment _ rfl
    exact .refl _

/-- Planning comes to the same with more selections. -/
theorem make_paired (g : Game) (s : State) (a : Action) (free : Bool)
    (hm : w.Below (.ofParams m.params) (.ofParams m'.params))
    (hs : special = true → w.params = ∅) :
    Paired (Stop.sense w Decision.Takes) w.Plans (make g s m a free special)
      (make g (w.state s) m' a free special) := by
  have hloosely : Paired (Stop.sense w (Loosely a m')) w.Plans (make g s m a free special)
      (make g (w.state s) m' a free special) := by
    refine (checkSeats_paired (v := ⟨g, s, _, s.active⟩) a hm hm hs).bind ?_
    rintro executor _ rfl
    refine Paired.bind (.refl _) ?_
    rintro _ _ -
    have hparams := checkParams_paired (v := ⟨g, s, _, executor⟩) a hm hm hs a.params
    refine (hparams.takesMore (fun _ _ _ _ _ _ h => .inl h)).bind ?_
    rintro _ _ -
    refine Paired.bind (holdsIn_stays (v := ⟨g, s, _, executor⟩) _ a.pre hm).check ?_
    rintro holds _ rfl
    refine Paired.bind (.refl _) ?_
    rintro _ _ -
    refine (checkPipeline_paired (v := ⟨g, s, _, executor⟩) a free hm _).bind ?_
    rintro ⟨cost, stages, payment⟩ _ rfl
    exact .pure ⟨_, rfl, hm, hs⟩
  -- Declared params that hold several values do not get past the second planning.
  refine hloosely.takesMore (fun q x y _ _ hy htakes => ?_)
  rcases htakes with htakes | ⟨p, hp, xs, hxs⟩
  · exact htakes
  · obtain ⟨executor, -, hy⟩ := bind_eq_ok hy
    obtain ⟨-, -, hy⟩ := bind_eq_ok hy
    obtain ⟨⟨⟩, hchecked, -⟩ := bind_eq_ok hy
    obtain ⟨x, hx⟩ := checkParams_single hchecked p hp
    rw [hxs] at hx
    cases hx

end Plan

end Tabletop
