import Tabletop.Proofs.Paired.Make
import Tabletop.Proofs.Play.Listing
import Tabletop.Proofs.Play.Replies

/-!
# Answering a move

An answer settles a decision for good, and the move then gets past it or is refused.  What a move is
asked next, it is asked later: for another declared param, or at a later operation of its effects.
So a chain of answers is never longer than there are declared params and operations, and exploring a
move comes to the same with more levels than that.

A decision of an effect comes up at one operation: with fewer the move runs out of them, with as
many it is asked.  That number is what grows along a chain of answers.

Main statements: `Rules.chainsWithin`, `Rules.explore_fuel`.
-/

namespace Tabletop

/-! ## Sides -/

namespace Move

/-- The one of the two moves to which requests of a side are made. -/
def side (m : Move) (special : Bool) : Move :=
  match m.compound, special with
  | some c, true => c.special
  | _, _ => m

/-- A request to a side of a move is answered among the selections of that side. -/
theorem asked_eq_side (m : Move) (q : Request) : m.asked q = (m.side q.special).params := by
  unfold asked side
  cases m.compound with
  | none => rfl
  | some c => cases q.special <;> rfl

/-- The host's side of a move is the move itself. -/
theorem side_false (m : Move) : m.side false = m := by
  unfold side
  cases m.compound <;> rfl

/-- Without a special activity, a move with more selections differs in nothing else. -/
theorem Within.eq_of_plain {m m' : Move} (h : m.Within m') (hm : m.compound = none) :
    m' = { m with params := m'.params } := by
  obtain ⟨haction, hfree, hclass, -, hcompound⟩ := h
  cases m
  cases m'
  cases haction
  cases hfree
  cases hclass
  cases hm
  cases hcompound
  rfl

/-- The other side of a move is its special activity. -/
theorem side_true {m : Move} {c : Accompaniment Move} (hc : m.compound = some c) :
    m.side true = c.special := by
  unfold side
  rw [hc]

end Move

/-! ## Planning -/

/-- What is settled about a move before any effect runs. -/
structure Planned where
  grant : Option String
  host : Plan
  special : Option (Accompaniment Plan)

/-- What a planned move comes to when it has been carried out. -/
def Planned.resolution (t : Planned) (x : Performance) : Resolution where
  session := x.session
  action := t.host.action
  executor := t.host.executor
  special := t.special.map (fun c => (c.special.action, c.special.executor))
  grant := t.grant
  warnings := x.warnings

namespace Rules

variable (r : Rules) (s : State) (m : Move)

/-- Screens a move: the game goes on, and the action may be taken with the special activity, or as a
free operation.  Tells the action and the grant that covers it. -/
def screen : Check (Action × Option String) := do
  ensure (← r.game.outcome? s).isNone .gameOver m.action
  match r.definition.action? m.action with
  | none => refuse .noSuchAction m.action
  | some a =>
    r.checkCompound s m
    return (a, ← r.checkGrant s m a)

/-- Plans a move. -/
def plan : Check Planned := do
  let (a, grant) ← r.screen s m
  let host ← Plan.make r.game s m a m.free false
  let special ← r.planCompound s m host.stages.length
  return { grant, host, special }

/-- Carries out a planned move. -/
def execute (t : Planned) : Check Resolution := do
  return t.resolution (← r.perform t.host t.special { session := { state := s } })

/-- A move is resolved by planning it and carrying it out. -/
theorem resolve_eq : r.resolve s m = r.plan s m >>= r.execute s := by
  unfold resolve plan screen
  simp only [bind_assoc]
  congr 1
  funext outcome
  congr 1
  funext _
  cases r.definition.action? m.action with
  | none => rfl
  | some a =>
    simp only [bind_assoc, pure_bind]
    rfl

/-- A move is planned alike under every budget. -/
theorem plan_within (n : UInt32) : (r.within n).plan s m = r.plan s m := rfl

end Rules

/-! ### What planning asks for -/

/-- The declared params of an action. -/
def Rules.declared (r : Rules) (action : ActionId) : List Param :=
  ((r.definition.action? action).map Action.params).getD []

/-- A move is asked for a declared param of the side to which the request is made, and lacks it. -/
structure Rules.Declares (r : Rules) (m : Move) (q : Request) : Prop where
  lacks : (m.asked q).get? q.decision.name = none
  declared : ∃ p ∈ r.declared (m.side q.special).action, p.name = q.decision.name

/-- What has been planned for a move has been planned for its host and its special activity. -/
structure Planned.For (t : Planned) (r : Rules) (m : Move) : Prop where
  host : ∃ a, r.definition.action? m.action = some a ∧ t.host.For m a false
  special : m.Accompanied t.special

namespace Rules

variable (r : Rules) (s : State) (m : Move)

/-- A param that a plan declares and misses is declared by the action of the side that is asked. -/
theorem declared_of_make {a : Action} {n : Move} {special : Bool} {q : Request}
    (ha : r.definition.action? (m.side special).action = some a)
    (hn : m.side special = n) (h : Plan.Declared a n special q) : r.Declares m q := by
  obtain ⟨⟨rfl, hlacks⟩, hp⟩ := h
  subst hn
  refine ⟨by rw [m.asked_eq_side]; exact hlacks, ?_⟩
  unfold declared
  rw [ha]
  exact hp

/-- Planning the special activity of a move stops only for declared params that its side lacks. -/
theorem planCompound_declares (stages : Nat) :
    Proper (r.Declares m) m.Accompanied (r.planCompound s m stages) := by
  unfold planCompound
  split
  · rename_i c hc
    refine Proper.bind (P := fun d => ∃ a, d.special.For c.special a true) ?_ ?_
    · refine (checkTiming_asks c stages m.action).bind (fun _ _ => ?_)
      split
      · exact .refuse _ _
      · rename_i a ha
        have hside := Move.side_true hc
        refine ((Plan.make_asks r.game s c.special a m.free true).mono (fun q hq => ?_)
          (fun _ h => h)).bind (fun p hp => .pure ⟨a, hp⟩)
        exact r.declared_of_make m (by rw [hside]; exact ha) hside hq
    · rintro d ⟨a, hd⟩
      refine .pure (fun e he => ?_)
      cases he
      exact ⟨c, a, hc, hd⟩
  · exact fun c hc => by cases hc

/-- Screening a move asks for nothing. -/
theorem screen_asks :
    Proper (fun _ => False) (fun x => r.definition.action? m.action = some x.1) (r.screen s m) := by
  refine .bindLift (fun outcome _ => ?_)
  refine (Proper.ensure _ _ _).bind (fun _ _ => ?_)
  cases ha : r.definition.action? m.action with
  | none => exact .refuse _ _
  | some a =>
    refine (r.checkCompound_asks s m).bind (fun _ _ => ?_)
    exact (r.checkGrant_asks s m a).bind (fun grant _ => .pure rfl)

/-- Planning asks only for declared params. -/
theorem plan_asks : Proper (r.Declares m) (fun t => t.For r m) (r.plan s m) := by
  refine ((r.screen_asks s m).mono (fun _ h => h.elim) (fun _ h => h)).bind ?_
  rintro ⟨a, grant⟩ ha
  have hmake := Plan.make_asks r.game s m a m.free false
  refine (hmake.mono (fun q hq => ?_) (fun _ h => h)).bind (fun host hhost => ?_)
  · exact r.declared_of_make m (by rw [m.side_false]; exact ha) m.side_false hq
  · refine (r.planCompound_declares s m host.stages.length).bind (fun special hspecial => ?_)
    exact .pure ⟨⟨a, ha, hhost⟩, hspecial⟩

end Rules

/-! ### Planning with more selections -/

namespace Plan

variable {m : Move} {special : Bool} {v : View}

/-- What is asked of one side passes on the other side if it passes there. -/
theorem checkSelected_side {a : Action} {sel : SeatSelector} (special' : Bool)
    (h : checkSelected a m special v sel = .ok ()) : checkSelected a m special' v sel = .ok () := by
  unfold checkSelected at h ⊢
  cases sel with
  | binding name =>
    dsimp only at h ⊢
    cases hp : a.param? name with
    | none => rfl
    | some p =>
      rw [hp] at h
      obtain ⟨domain, hdomain, h⟩ := bind_eq_ok h
      refine bind_ok hdomain ?_
      cases hchosen : m.params.get? name with
      | none => rw [hchosen] at h; cases h
      | some chosen =>
        rw [hchosen] at h
        exact h
  | active => rfl
  | any => rfl
  | allOther => rfl
  | id seat => rfl
  | ids seats => rfl

/-- Seats that have been found for one side are found for the other. -/
theorem checkSeats_side {a : Action} {executor : Seat} (special' : Bool)
    (h : checkSeats a m special v = .ok executor) : checkSeats a m special' v = .ok executor := by
  obtain ⟨⟨⟩, hactor, h⟩ := bind_eq_ok h
  obtain ⟨⟨⟩, hexecutor, h⟩ := bind_eq_ok h
  exact bind_ok (checkSelected_side special' hactor)
    (bind_ok (checkSelected_side special' hexecutor) h)

/-- Declared params that pass the check of one side pass that of the other. -/
theorem checkParams_side {a : Action} (special' : Bool) :
    ∀ {ps : List Param}, checkParams a m special v ps = .ok () →
      checkParams a m special' v ps = .ok ()
  | [], _ => rfl
  | p :: ps, h => by
    rw [checkParams] at h ⊢
    obtain ⟨domain, hdomain, h⟩ := bind_eq_ok h
    refine bind_ok hdomain ?_
    cases hp : m.params.get? p.name with
    | none => rw [hp] at h; cases h
    | some chosen =>
      rw [hp] at h
      cases chosen with
      | many xs => cases h
      | one x =>
        dsimp only at h ⊢
        split at h
        · rename_i hx
          rw [if_pos hx]
          exact checkParams_side special' h
        · cases h

/-- A plan for one side is a plan for the other. -/
theorem make_side {g : Game} {s : State} {a : Action} {free : Bool} {p : Plan} (special' : Bool)
    (h : make g s m a free special = .ok p) :
    make g s m a free special' = .ok { p with special := special' } := by
  obtain ⟨executor, hseats, h⟩ := bind_eq_ok h
  obtain ⟨⟨⟩, havailable, h⟩ := bind_eq_ok h
  obtain ⟨⟨⟩, hparams, h⟩ := bind_eq_ok h
  obtain ⟨holds, hholds, h⟩ := bind_eq_ok h
  obtain ⟨⟨⟩, hpre, h⟩ := bind_eq_ok h
  obtain ⟨⟨cost, stages, payment⟩, hpipeline, h⟩ := bind_eq_ok h
  cases h
  exact bind_ok (checkSeats_side special' hseats) (bind_ok havailable
    (bind_ok (checkParams_side special' hparams) (bind_ok hholds (bind_ok hpre
      (bind_ok hpipeline rfl)))))

/-- With more selections, an action is planned as it was. -/
theorem make_within {g : Game} {s : State} {m' : Move} {a : Action} {free : Bool} {p : Plan}
    (hm : m.params.Within m'.params) (h : make g s m a free special = .ok p) :
    make g s m' a free special = .ok (p.under (.ofParams m'.params)) := by
  have hplain {q : Plan} (hq : make g s m a free false = .ok q) :
      make g s m' a free false = .ok (q.under (.ofParams m'.params)) := by
    obtain ⟨q', hq', b', rfl, -, -⟩ := (make_paired (w := .adding (.ofParams m'.params)) g s a free
      (Widening.below_ofParams hm) (fun hs => absurd hs (by decide))).of_ok hq
    have hfor := (make_asks g s m' a free false).of_ok hq'
    obtain rfl : b' = .ofParams m'.params := hfor.bindings
    exact hq'
  have hside := make_side special (hplain (make_side false h))
  have hspecial := ((make_asks g s m a free special).of_ok h).special
  rw [hside, ← hspecial]
  rfl

end Plan

/-- A planned move with other selections: those of its host, and those of its special activity. -/
structure Planned.Alike (t t' : Planned) (m' : Move) : Prop where
  host : t'.host = t.host.under (.ofParams m'.params)
  special : t'.special = t.special.map (·.under (.ofParams (m'.side true).params))

namespace Rules

variable (r : Rules) (s : State) {m m' : Move} {t : Planned}

/-- With more selections, a special activity is planned as it was. -/
theorem planCompound_within (hm : m.Within m') {stages : Nat}
    {special : Option (Accompaniment Plan)} (h : r.planCompound s m stages = .ok special) :
    r.planCompound s m' stages =
      .ok (special.map (·.under (.ofParams (m'.side true).params))) := by
  have hcompound := hm.compound
  unfold planCompound at h ⊢
  revert hcompound
  cases hc : m.compound with
  | none =>
    rw [hc] at h
    cases h
    cases m'.compound with
    | none => exact fun _ => rfl
    | some d =>
      intro hcompound
      cases hcompound
  | some c =>
    rw [hc] at h
    obtain ⟨d, hd, h⟩ := bind_eq_ok h
    cases h
    obtain ⟨⟨⟩, htiming, hd⟩ := bind_eq_ok hd
    cases hc' : m'.compound with
    | none =>
      intro hcompound
      cases hcompound
    | some c' =>
      rintro ⟨halong⟩
      have htiming' : c'.checkTiming stages m'.action = .ok () := by
        unfold Accompaniment.checkTiming at htiming ⊢
        rw [halong.timing, halong.afterStage, hm.action]
        exact htiming
      cases ha : r.definition.action? c.special.action with
      | none => rw [ha] at hd; cases hd
      | some a =>
        rw [ha] at hd
        obtain ⟨plan, hplan, hd⟩ := bind_eq_ok hd
        cases hd
        have hmake := Plan.make_within halong.params hplan
        rw [← hm.free] at hmake
        have hspecial : r.planSpecial s m' stages c' = .ok {
            special := plan.under (.ofParams c'.special.params)
            timing := c'.timing
            afterStage := c'.afterStage } := by
          refine bind_ok htiming' ?_
          rw [halong.action, ha]
          exact bind_ok hmake rfl
        refine bind_ok hspecial ?_
        rw [Move.side_true hc', halong.timing, halong.afterStage]
        rfl

/-- With more selections, a move is asked for nothing before its effects run. -/
theorem plan_alike (hm : m.Within m') (h : r.plan s m = .ok t) :
    Proper (fun _ => False) (fun t' => t.Alike t' m') (r.plan s m') := by
  obtain ⟨⟨a, grant⟩, hscreened, h⟩ := bind_eq_ok h
  obtain ⟨host, hhost, h⟩ := bind_eq_ok h
  obtain ⟨special, hspecial, h⟩ := bind_eq_ok h
  cases h
  have ha := (r.screen_asks s m).of_ok hscreened
  refine (r.screen_asks s m').bind ?_
  rintro ⟨a', grant'⟩ ha'
  rw [hm.action] at ha'
  obtain rfl : a = a' := Option.some.inj (ha.symm.trans ha')
  dsimp only
  rw [hm.free, Plan.make_within hm.params hhost]
  change Proper _ _ (r.planCompound s m' host.stages.length >>= _)
  rw [r.planCompound_within s hm hspecial]
  exact .pure ⟨rfl, rfl⟩

/-- With more selections, a move without a special activity is screened as it was. -/
theorem screen_plain (hm : m.Within m') (hplain : m.compound = none) {x : Action × Option String}
    (h : r.screen s m = .ok x) : r.screen s m' = .ok x := by
  have heq := hm.eq_of_plain hplain
  obtain ⟨outcome, houtcome, h⟩ := bind_eq_ok h
  obtain ⟨⟨⟩, hgoes, h⟩ := bind_eq_ok h
  rw [← hm.action] at hgoes
  refine bind_ok houtcome (bind_ok hgoes ?_)
  rw [hm.action]
  cases ha : r.definition.action? m.action with
  | none => rw [ha] at h; cases h
  | some a =>
    rw [ha] at h
    obtain ⟨-, -, h⟩ := bind_eq_ok h
    obtain ⟨grant, hgrant, h⟩ := bind_eq_ok h
    have hcompound : r.checkCompound s m' = .ok () := by
      unfold checkCompound
      rw [heq, hplain]
    obtain ⟨_, hgrant', rfl⟩ := (r.checkGrant_paired s a
      (Widening.moves_of_within hplain heq hm.params) Decision.Takes).of_ok hgrant
    exact bind_ok hcompound (bind_ok hgrant' h)

/-- With more selections, a move without a special activity is planned as it was. -/
theorem plan_plain (hm : m.Within m') (hplain : m.compound = none) (h : r.plan s m = .ok t) :
    ∃ t', r.plan s m' = .ok t' ∧ t.Alike t' m' := by
  have halike := r.plan_alike s hm h
  suffices hplan : ∃ t', r.plan s m' = .ok t' by
    obtain ⟨t', ht'⟩ := hplan
    exact ⟨t', ht', halike.of_ok ht'⟩
  obtain ⟨x, hscreened, h⟩ := bind_eq_ok h
  obtain ⟨host, hhost, h⟩ := bind_eq_ok h
  obtain ⟨special, hspecial, -⟩ := bind_eq_ok h
  have hhost' := Plan.make_within hm.params hhost
  rw [← hm.free] at hhost'
  exact ⟨_, bind_ok (r.screen_plain s hm hplain hscreened) (bind_ok hhost'
    (bind_ok (r.planCompound_within s hm hspecial) rfl))⟩

end Rules

/-! ## Operations at which moves are asked -/

namespace Rules

variable (r : Rules) (s : State)

/-- A decision comes up at an operation: with so many operations a move is asked it, and with fewer
it runs out of them. -/
structure AskedAt (m : Move) (n : UInt32) (q : Request) : Prop where
  le : n ≤ r.limits.maxOps
  asks : (r.within n).resolve s m = .error (.pending q)
  short : ∀ k : UInt32, k.toNat < n.toNat → ∃ path,
    (r.within k).resolve s m = .error (.fault (.effectBudget k.toNat path))

/-- A move gets past an operation: with so many operations it is complete, or it needs one more. -/
def GetsPast (m : Move) (n : UInt32) : Prop :=
  (∃ x, (r.within n).resolve s m = .ok x) ∨
    ∃ path, (r.within n).resolve s m = .error (.fault (.shortage n.toNat path))

end Rules

/-- The names and values that a move selects on either side. -/
def Move.answers (m : Move) (special : Bool) : Bindings := .ofParams (m.side special).params

/-- The start of a performance. -/
def Performance.start (s : State) : Performance := { session := { state := s } }

section

variable {r : Rules} {s : State} {m m' : Move} {t t' : Planned}

namespace Planned

/-- How a planned move is carried out with more selections. -/
theorem For.answerable (h : t.For r m) (hm : m.Within m') (top : UInt32) :
    Answerable m'.answers top (fun n => (r.within n).perform t.host t.special)
      (fun n => (r.within n).perform (t.host.under (.ofParams m'.params))
        (t.special.map (·.under (.ofParams (m'.side true).params)))) := by
  obtain ⟨a, -, hhost⟩ := h.host
  refine r.perform_answerable hhost.special ?_ (fun c hc => ?_)
  · rw [hhost.bindings, Move.answers, m'.side_false]
    exact Widening.below_ofParams hm.params
  · obtain ⟨d, b, hd, hspecial⟩ := h.special c hc
    refine ⟨hspecial.special, ?_⟩
    have hside := hm.asked { decision := default, special := true }
    rw [m.asked_eq_side, m'.asked_eq_side, Move.side_true hd] at hside
    rw [hspecial.bindings]
    exact Widening.below_ofParams hside

/-- A planned move stops as its performance does. -/
theorem resolve_of_error (ht : r.plan s m = .ok t) {e : Stop}
    (h : r.perform t.host t.special (.start s) = .error e) : r.resolve s m = .error e := by
  rw [r.resolve_eq, ht]
  change r.execute s t = _
  unfold Rules.execute
  rw [show r.perform t.host t.special { session := { state := s } } = .error e from h]
  rfl

/-- A planned move whose performance comes to its end is complete. -/
theorem resolve_of_ok (ht : r.plan s m = .ok t) {x : Performance}
    (h : r.perform t.host t.special (.start s) = .ok x) :
    r.resolve s m = .ok (t.resolution x) := by
  rw [r.resolve_eq, ht]
  exact (bind_ok h rfl : r.execute s t = _)

/-- A planned move that stops has been stopped on the way. -/
theorem perform_of_error (ht : r.plan s m = .ok t) {e : Stop} (h : r.resolve s m = .error e) :
    r.perform t.host t.special (.start s) = .error e := by
  cases hx : r.perform t.host t.special (.start s) with
  | error e' =>
    cases (resolve_of_error ht hx).symm.trans h
    rfl
  | ok x => cases (resolve_of_ok ht hx).symm.trans h

end Planned

namespace Rules

/-- An operation at which a decision comes up is the only one. -/
theorem AskedAt.unique {n k : UInt32} {q q' : Request} (hn : r.AskedAt s m n q)
    (hk : r.AskedAt s m k q') : n = k := by
  rcases Nat.lt_trichotomy n.toNat k.toNat with hlt | heq | hlt
  · obtain ⟨path, h⟩ := hk.short n hlt
    cases hn.asks.symm.trans h
  · exact UInt32.toNat_inj.1 heq
  · obtain ⟨path, h⟩ := hn.short k hlt
    cases hk.asks.symm.trans h

/-- A performance that stops for a decision at an operation. -/
theorem AskedAt.of_stopsAt (ht : r.plan s m = .ok t) {n : UInt32} {q : Request}
    (hn : n ≤ r.limits.maxOps)
    (h : (Inquiry.stops m'.answers).StopsAt 0
      (fun k => (r.within k).perform t.host t.special (.start s)) n (.pending q)) :
    r.AskedAt s m n q where
  le := hn
  asks := Planned.resolve_of_error (r := r.within n) ht h.eq
  short k hk := by
    obtain ⟨e, he, path, rfl⟩ := h.short k (Nat.zero_le _) hk
    have hcounter : k.toNat + 1 < UInt32.size := Nat.lt_of_le_of_lt hk n.toNat_lt_size
    rw [Fault.shortage_of_lt hcounter] at he
    exact ⟨path, Planned.resolve_of_error (r := r.within k) ht he⟩

/-- A move that is asked for something is asked by its planning, or at an operation. -/
theorem asked_cases {q : Request} (h : r.resolve s m = .error (.pending q)) :
    r.plan s m = .error (.pending q) ∨ ∃ t n, r.plan s m = .ok t ∧ r.AskedAt s m n q := by
  cases ht : r.plan s m with
  | error e =>
    rw [r.resolve_eq, ht] at h
    cases h
    exact .inl rfl
  | ok t =>
    have hanswerable := ((r.plan_asks s m).of_ok ht).answerable (.refl m) r.limits.maxOps
    obtain ⟨n, hn, -, hstops, -⟩ :=
      (hanswerable.replies (.start s)).asks (Planned.perform_of_error ht h) ⟨q, rfl⟩
    exact .inr ⟨t, n, rfl, .of_stopsAt ht hn hstops⟩

/-- With the operations that lead to a decision, an answer that fits gets a move past it, and any
other answer is refused. -/
theorem AskedAt.answered {n : UInt32} {q : Request} (hn : r.AskedAt s m n q)
    (h : r.resolve s m = .error (.pending q)) (ht : r.plan s m = .ok t) (hm : m.Within m')
    (ht' : r.plan s m' = .ok t') {v : Selection}
    (hv : (m'.asked q).get? q.decision.name = some v) :
    (q.decision.Takes (.ofSelection v) → r.GetsPast s m' n) ∧
      (¬q.decision.Takes (.ofSelection v) → ∃ cause action, (r.within n).resolve s m' =
        .error (.refused { refusal := .wrongSelection q.decision.name cause, action })) := by
  have hanswerable := ((r.plan_asks s m).of_ok ht).answerable hm r.limits.maxOps
  obtain ⟨hhost, hspecial⟩ := (r.plan_alike s hm ht).of_ok ht'
  rw [← hhost, ← hspecial] at hanswerable
  obtain ⟨k, hk, -, hstops, hfits, hmisfits⟩ :=
    (hanswerable.replies (.start s)).asks (Planned.perform_of_error ht h) ⟨q, rfl⟩
  obtain rfl := hn.unique (.of_stopsAt ht hk hstops)
  have hanswer : (m'.answers q.special).get? q.decision.name = some (.ofSelection v) := by
    rw [Move.answers, Bindings.get?_ofParams, ← m'.asked_eq_side, hv]
    rfl
  constructor
  · intro htakes
    have hspent := hfits ⟨q, _, rfl, hanswer, htakes⟩
    cases hx : (r.within n).perform t'.host t'.special (.start s) with
    | ok x => exact .inl ⟨_, Planned.resolve_of_ok (r := r.within n) ht' hx⟩
    | error e =>
      rw [hx] at hspent
      obtain ⟨path, rfl⟩ := hspent
      exact .inr ⟨path, Planned.resolve_of_error (r := r.within n) ht' hx⟩
  · intro hnot
    obtain ⟨e, he, q', cause, action, hq, rfl⟩ := hmisfits ⟨q, _, rfl, hanswer, hnot⟩
    cases hq
    exact ⟨cause, action, Planned.resolve_of_error (r := r.within n) ht' he⟩

/-- With the operations that lead to a decision, an answered move is asked for nothing. -/
theorem AskedAt.settled {n : UInt32} {q : Request} (hn : r.AskedAt s m n q)
    (h : r.resolve s m = .error (.pending q)) (ht : r.plan s m = .ok t) (hm : m.Within m')
    {v : Selection} (hv : (m'.asked q).get? q.decision.name = some v) (q' : Request) :
    (r.within n).resolve s m' ≠ .error (.pending q') := by
  intro hq'
  cases ht' : r.plan s m' with
  | error e =>
    rw [(r.within n).resolve_eq, plan_within, ht'] at hq'
    cases hq'
    have halike := r.plan_alike s hm ht
    rw [ht'] at halike
    exact halike.1
  | ok t' =>
    obtain ⟨htakes, hnot⟩ := hn.answered h ht hm ht' hv
    by_cases hfits : q.decision.Takes (.ofSelection v)
    · rcases htakes hfits with ⟨x, hx⟩ | ⟨path, hpath⟩
      · cases hq'.symm.trans hx
      · cases hq'.symm.trans hpath
    · obtain ⟨cause, action, hrefused⟩ := hnot hfits
      cases hq'.symm.trans hrefused

end Rules

end

/-! ## Chains of answers -/

/-- More leeway than some limits give, or as much. -/
structure Limits.Within (o o' : Limits) : Prop where
  maxOps : o.maxOps ≤ o'.maxOps
  maxTransitions : o.maxTransitions ≤ o'.maxTransitions

/-- What runs have under other limits that they lack under some. -/
def Widening.between {o o' : Limits} (h : o.Within o') : Widening where
  maxOps n := if n = o.maxOps then o'.maxOps else n
  maxTransitions n := if n = o.maxTransitions then o'.maxTransitions else n
  tracing _ := o'.tracing
  maxOps_le n := by
    split
    · rename_i hn
      exact hn ▸ UInt32.le_iff_toNat_le.1 h.maxOps
    · exact Nat.le_refl _
  maxTransitions_le n := by
    split
    · rename_i hn
      exact hn ▸ UInt32.le_iff_toNat_le.1 h.maxTransitions
    · exact Nat.le_refl _

/-- Between limits, nothing but the limits is widened. -/
theorem Widening.between_limitsOnly {o o' : Limits} (h : o.Within o') :
    (Widening.between h).LimitsOnly := ⟨rfl, rfl⟩

/-- The widening between two limits turns the rules under the first into those under the second. -/
theorem Widening.rules_between {g : Game} {o o' : Limits} (h : o.Within o') :
    (Widening.between h).rules { game := g, limits := o } = { game := g, limits := o' } := by
  simp [rules, between]

namespace Rules

variable (r : Rules) (s : State)

/-- A move whose chains of answers are no longer than a number. -/
def ChainsWithin : Nat → Move → Prop
  | 0, m => ∀ q, r.resolve s m ≠ .error (.pending q)
  | k + 1, m => ∀ q, r.resolve s m = .error (.pending q) → ∀ v, ChainsWithin k (m.answer q v)

variable {r s} {m : Move}

/-- A move stands open exactly where resolving it stops for a request. -/
theorem standing_eq_pending {q : Request} :
    r.standing s m = .ok (.pending q) ↔ r.resolve s m = .error (.pending q) := by
  unfold standing
  constructor
  · intro h
    cases hx : r.resolve s m with
    | ok x => rw [hx] at h; cases h
    | error st =>
      rw [hx] at h
      cases st with
      | pending q' => cases h; rfl
      | refused rejection => cases h
      | fault fault => cases h
  · intro h
    rw [h]

/-- Where a move stands with some operations, it stands with more of them. -/
theorem standing_of_le {n k : UInt32} (hnk : n ≤ k) {x : Standing}
    (h : (r.within n).standing s m = .ok x) : (r.within k).standing s m = .ok x := by
  have hwithin : (r.within n).limits.Within (r.within k).limits := ⟨hnk, UInt32.le_refl _⟩
  have hstays := (r.within n).standing_stays (Widening.between_limitsOnly hwithin) s m
  rw [show (Widening.between hwithin).rules (r.within n) = r.within k from
    Widening.rules_between hwithin] at hstays
  exact hstays.eq_ok h

/-- What a move is asked, it is asked with more operations. -/
theorem pending_of_le {n k : UInt32} (hnk : n ≤ k) {q : Request}
    (h : (r.within n).resolve s m = .error (.pending q)) :
    (r.within k).resolve s m = .error (.pending q) :=
  standing_eq_pending.1 (standing_of_le hnk (standing_eq_pending.2 h))

/-- Longer chains are allowed as well. -/
theorem ChainsWithin.mono :
    ∀ {k l : Nat} {m : Move}, k ≤ l → r.ChainsWithin s k m → r.ChainsWithin s l m
  | 0, 0, _, _, h => h
  | 0, _ + 1, _, _, h => fun q hq => absurd hq (h q)
  | _ + 1, 0, _, hkl, _ => absurd hkl (Nat.not_succ_le_zero _)
  | _ + 1, _ + 1, _, hkl, h => fun q hq v => (h q hq v).mono (Nat.le_of_succ_le_succ hkl)

/-- What planning asks for, or what comes up at an operation, is asked of a move that lacks it. -/
theorem within_answer {q : Request} (h : r.resolve s m = .error (.pending q)) (v : Selection) :
    m.Within (m.answer q v) := by
  have hasks := r.resolve_asks s m
  rw [h] at hasks
  exact Move.within_answer hasks.1 v

/-- An answer selects what it answers, on the side that is asked. -/
theorem answer_selects (m : Move) (q : Request) (v : Selection) :
    ((m.answer q v).asked q).get? q.decision.name = some v := by
  rw [Move.asked_answer, Dict.get?_insert_self]

/-- A move that is asked for nothing with some of the operations is asked at most as often as there
are others. -/
theorem chainsWithin_of_not_asked :
    ∀ {k : Nat} {n : UInt32} {m : Move}, r.limits.maxOps.toNat ≤ n.toNat + k →
      (∀ q, (r.within n).resolve s m ≠ .error (.pending q)) → r.ChainsWithin s k m := by
  -- What it is asked later comes up at a later operation.
  have hlater {n : UInt32} {m : Move} {q : Request} (hn : ∀ q, (r.within n).resolve s m ≠ .error
      (.pending q)) (hq : r.resolve s m = .error (.pending q)) :
      ∃ t n', r.plan s m = .ok t ∧ r.AskedAt s m n' q ∧ n.toNat < n'.toNat := by
    rcases asked_cases hq with hplan | ⟨t, n', ht, hn'⟩
    · refine absurd ?_ (hn q)
      rw [(r.within n).resolve_eq, plan_within, hplan]
      rfl
    · refine ⟨t, n', ht, hn', Nat.lt_of_not_le (fun hle => ?_)⟩
      exact hn q (pending_of_le (UInt32.le_iff_toNat_le.2 hle) hn'.asks)
  intro k
  induction k with
  | zero =>
    intro n m hk hn q hq
    obtain ⟨t, n', -, hn', hlt⟩ := hlater hn hq
    have hle := UInt32.le_iff_toNat_le.1 hn'.le
    omega
  | succ k ih =>
    intro n m hk hn q hq v
    obtain ⟨t, n', ht, hn', hlt⟩ := hlater hn hq
    refine ih (n := n') (by omega) (fun q' => ?_)
    exact hn'.settled hq ht (within_answer hq v) (answer_selects m q v) q'

/-! ### Declared params -/

end Rules

/-- The number of params that a move lacks a selection for. -/
def Move.lacking (m : Move) (ps : List Param) : Nat :=
  ps.countP (fun p => (m.params.get? p.name).isNone)

/-- A selection for a declared param that is lacking leaves fewer of them lacking. -/
theorem Move.lacking_select_lt {m : Move} {name : String} (hname : m.params.get? name = none)
    {ps : List Param} (hp : ∃ p ∈ ps, p.name = name) (v : Selection) :
    (m.select name v).lacking ps < m.lacking ps := by
  have hle (ps : List Param) : (m.select name v).lacking ps ≤ m.lacking ps := by
    refine List.countP_mono_left (fun p _ h => ?_)
    by_cases heq : p.name = name
    · rw [heq, hname]
      rfl
    · rwa [select, Dict.get?_insert_ne _ _ heq] at h
  obtain ⟨p, hp, rfl⟩ := hp
  obtain ⟨before, after, rfl⟩ := List.append_of_mem hp
  have hbefore := hle before
  have hafter := hle after
  have hselected : ((m.select p.name v).params.get? p.name).isNone = false := by
    rw [select, Dict.get?_insert_self]
    rfl
  unfold lacking at hbefore hafter ⊢
  rw [List.countP_append, List.countP_append, List.countP_cons_of_neg (by rw [hselected]; decide),
    List.countP_cons_of_pos (by rw [hname]; rfl)]
  omega

namespace Rules

/-- The number of declared params that a move and its special activity lack. -/
def lacking (r : Rules) (m : Move) : Nat :=
  m.lacking (r.declared m.action) +
    ((m.compound.map (fun c => c.special.lacking (r.declared c.special.action))).getD 0)

variable {r : Rules} {s : State} {m : Move}

/-- An answer to a request for a declared param leaves fewer of them lacking. -/
theorem lacking_answer_lt {q : Request} (h : r.Declares m q) (v : Selection) :
    r.lacking (m.answer q v) < r.lacking m := by
  obtain ⟨hlacks, hdeclared⟩ := h
  rw [m.asked_eq_side] at hlacks
  have hhost (hside : m.side q.special = m) (hanswer : m.answer q v = m.select q.decision.name v) :
      r.lacking (m.answer q v) < r.lacking m := by
    rw [hside] at hlacks hdeclared
    rw [hanswer]
    exact Nat.add_lt_add_right (Move.lacking_select_lt hlacks hdeclared v) _
  unfold Move.side at hhost hlacks hdeclared
  unfold Move.answer at hhost ⊢
  cases hc : m.compound with
  | none =>
    rw [hc] at hhost
    exact hhost rfl rfl
  | some c =>
    rw [hc] at hhost hlacks hdeclared
    cases hq : q.special with
    | false =>
      rw [hq] at hhost
      exact hhost rfl rfl
    | true =>
      rw [hq] at hlacks hdeclared
      have hlt := Move.lacking_select_lt hlacks hdeclared v
      simp only [lacking, hc, Option.map_some, Option.getD_some]
      exact Nat.add_lt_add_left hlt _

/-- A move that is asked for something with no operations at all is asked by its planning. -/
theorem declares_of_none {q : Request} (h : (r.within 0).resolve s m = .error (.pending q)) :
    r.Declares m q := by
  have hasks := r.plan_asks s m
  cases ht : r.plan s m with
  | error e =>
    rw [(r.within 0).resolve_eq, plan_within, ht] at h
    cases h
    rw [ht] at hasks
    exact hasks.1
  | ok t =>
    have hspent := ((hasks.of_ok ht).answerable (.refl m) 0).spent 0 (.start s) rfl
    obtain ⟨hhost, hspecial⟩ := (r.plan_alike s (.refl m) ht).of_ok ht
    rw [← hhost, ← hspecial, Planned.perform_of_error (r := r.within 0) ht h] at hspent
    obtain ⟨path, hpath⟩ := hspent
    cases hpath

/-- A chain of answers is never longer than there are declared params that are lacking and
operations. -/
theorem chainsWithin (m : Move) : r.ChainsWithin s (r.lacking m + r.limits.maxOps.toNat) m := by
  have hchains : ∀ (l : Nat) (m : Move), r.lacking m ≤ l →
      r.ChainsWithin s (l + r.limits.maxOps.toNat) m := by
    intro l
    induction l with
    | zero =>
      intro m hl
      rw [Nat.zero_add]
      refine chainsWithin_of_not_asked (n := 0) (Nat.le_add_left _ _) (fun q hq => ?_)
      exact absurd (lacking_answer_lt (declares_of_none hq) default) (by omega)
    | succ l ih =>
      intro m hl
      by_cases hasked : ∃ q, (r.within 0).resolve s m = .error (.pending q)
      · obtain ⟨q₀, hq₀⟩ := hasked
        have hlt := lacking_answer_lt (declares_of_none hq₀)
        rw [Nat.add_right_comm]
        intro q hq v
        -- With all operations, it is asked for the same declared param.
        cases hq.symm.trans (pending_of_le (k := r.limits.maxOps) UInt32.zero_le hq₀)
        exact ih _ (Nat.le_of_lt_succ (Nat.lt_of_lt_of_le (hlt v) hl))
      · have hchains : r.ChainsWithin s r.limits.maxOps.toNat m :=
          chainsWithin_of_not_asked (n := 0) (Nat.le_add_left _ _) (fun q hq => hasked ⟨q, hq⟩)
        exact hchains.mono (Nat.le_add_left _ _)
  exact hchains _ m (Nat.le_refl _)

/-! ### Exploring -/

/-- Exploring comes to the same with as many levels as a chain of answers may be long, or more. -/
theorem explore_eq_of_chainsWithin {cap : Nat} :
    ∀ {k : Nat} {m : Move} {fuel fuel' : Nat} {found : Array Move}, r.ChainsWithin s k m →
      k < fuel → k < fuel' → r.explore s cap fuel m found = r.explore s cap fuel' m found := by
  intro k
  induction k with
  | zero =>
    intro m fuel fuel' found h hfuel hfuel'
    obtain ⟨fuel, rfl⟩ := Nat.exists_eq_add_of_lt hfuel
    obtain ⟨fuel', rfl⟩ := Nat.exists_eq_add_of_lt hfuel'
    rw [explore, explore]
    cases hresolve : r.resolve s m with
    | ok x => rfl
    | error st =>
      cases st with
      | pending q => exact absurd hresolve (h q)
      | refused rejection => rfl
      | fault fault => rfl
  | succ k ih =>
    intro m fuel fuel' found h hfuel hfuel'
    obtain ⟨fuel, rfl⟩ := Nat.exists_eq_add_of_lt hfuel
    obtain ⟨fuel', rfl⟩ := Nat.exists_eq_add_of_lt hfuel'
    rw [explore, explore]
    cases hresolve : r.resolve s m with
    | ok x => rfl
    | error st =>
      cases st with
      | pending q =>
        -- Every answer has a shorter chain before it.
        have hbranch (found : Array Move) (v : Selection) :
            r.explore s cap (k + 1 + fuel) (m.answer q v) found =
              r.explore s cap (k + 1 + fuel') (m.answer q v) found :=
          ih (h q hresolve v) (by omega) (by omega)
        simp only [hbranch]
      | refused rejection => rfl
      | fault fault => rfl

/-- The number of declared params of a move and its special activity. -/
def declaredCount (r : Rules) (m : Move) : Nat :=
  (r.declared m.action).length +
    ((m.compound.map (fun c => (r.declared c.special.action).length)).getD 0)

/-- A listing explores as many levels as there are declared params and operations, and one more. -/
theorem depthOf_eq (r : Rules) (m : Move) :
    r.depthOf m = r.declaredCount m + r.limits.maxOps.toNat + 1 := by
  simp only [depthOf, declaredCount, declared]
  cases m.compound with
  | none => cases r.definition.action? m.action <;> rfl
  | some c =>
    dsimp only [Option.map_some, Option.getD_some]
    cases r.definition.action? m.action <;> cases r.definition.action? c.special.action <;> rfl

/-- A move lacks no more selections than its declared params are. -/
theorem lacking_le (r : Rules) (m : Move) : r.lacking m ≤ r.declaredCount m := by
  unfold lacking declaredCount
  refine Nat.add_le_add List.countP_le_length ?_
  cases m.compound with
  | none => exact Nat.le_refl 0
  | some c => exact List.countP_le_length

/-- Exploring a move comes to the same with more levels than are explored. -/
theorem explore_fuel (m : Move) {cap fuel : Nat} (h : r.depthOf m ≤ fuel) (found : Array Move) :
    r.explore s cap fuel m found = r.explore s cap (r.depthOf m) m found := by
  have hlt : r.lacking m + r.limits.maxOps.toNat < r.depthOf m := by
    rw [depthOf_eq]
    exact Nat.lt_succ_of_le (Nat.add_le_add_right (r.lacking_le m) _)
  exact explore_eq_of_chainsWithin (chainsWithin m) (Nat.lt_of_lt_of_le hlt h) hlt

end Rules

end Tabletop
