import Tabletop.Proofs.Play.Answers
import Tabletop.Proofs.Play.DecisionPoint

/-!
# Decisions and their answers

A move is built by answering what it is asked, one decision after the other.  An answer settles a
decision for good.  It gets the move past the decision if it is one of the options, or as many of
them as are asked for, each once; any other answer makes the move illegal, for the reason that its
params are.  And a chain of answers comes to an end, after at most as many answers as there are
declared params and operations.

A selector that reads a declared param asks for it as well, but takes only seats; decisions about
such params are left out where it is said which answers fit.

Main statement: `Rules.answers_settle`.
-/

namespace Tabletop

/-! ## Declared params -/

/-- The declared params up to the first of a name. -/
def Param.upTo (name : String) : List Param → List Param
  | [] => []
  | p :: ps => if p.name = name then [p] else p :: upTo name ps

namespace Param

/-- The params up to a name end with the first one of that name. -/
theorem upTo_append {name : String} {p : Param} (hp : p.name = name) (after : List Param) :
    ∀ {before : List Param}, (∀ o ∈ before, o.name ≠ name) →
      upTo name (before ++ p :: after) = before ++ [p]
  | [], _ => if_pos hp
  | o :: before, h => by
    rw [List.cons_append, upTo, if_neg (h o List.mem_cons_self),
      upTo_append hp after (fun o' ho' => h o' (List.mem_cons_of_mem o ho'))]
    rfl

end Param

namespace Plan

variable {a : Action} {m : Move} {special : Bool} {v : View} {q : Request}

/-- Params are checked one after the other. -/
theorem checkParams_append (ps : List Param) :
    ∀ os, checkParams a m special v (os ++ ps) =
      checkParams a m special v os >>= fun _ => checkParams a m special v ps
  | [] => rfl
  | o :: os => by
    rw [List.cons_append, checkParams, checkParams, bind_assoc]
    congr 1
    funext values
    cases m.params.get? o.name with
    | none => rfl
    | some chosen =>
      cases chosen with
      | many xs => rfl
      | one x =>
        dsimp only
        split
        · exact checkParams_append ps os
        · rfl

/-- A param that is asked for comes after params that have been settled. -/
theorem exists_of_checkParams :
    ∀ {ps : List Param}, checkParams a m special v ps = .error (.pending q) →
      ∃ before p after values, ps = before ++ p :: after ∧
        checkParams a m special v before = .ok () ∧ domain p v = .ok values ∧
        m.params.get? p.name = none ∧ q = { decision := p.decision values, special }
  | [], h => by cases h
  | p :: ps, h => by
    rw [checkParams] at h
    rcases bind_eq_error h with hdomain | ⟨values, hvalues, h⟩
    · cases hvalues : domain p v with
      | error fault => rw [hvalues] at hdomain; cases hdomain
      | ok values => rw [hvalues] at hdomain; cases hdomain
    · have hvalues := liftM_eq_ok hvalues
      cases hp : m.params.get? p.name with
      | none =>
        rw [hp] at h
        cases h
        exact ⟨[], p, ps, values, rfl, rfl, hvalues, hp, rfl⟩
      | some chosen =>
        rw [hp] at h
        cases chosen with
        | many xs => cases h
        | one x =>
          dsimp only at h
          split at h
          · rename_i hx
            obtain ⟨before, o, after, values', rfl, hbefore, hasked⟩ := exists_of_checkParams h
            refine ⟨p :: before, o, after, values', rfl, ?_, hasked⟩
            rw [checkParams]
            refine bind_ok (congrArg _ hvalues) ?_
            rw [hp]
            dsimp only
            rw [if_pos hx, hbefore]
          · cases h

/-- A param that is selected passes if the selection fits; else the action is refused. -/
theorem checkParams_selected {p : Param} {values : List Value} {before : List Param}
    (hbefore : checkParams a m special v before = .ok ()) (hvalues : domain p v = .ok values)
    {x : Selection} (hx : m.params.get? p.name = some x) (after : List Param) :
    ((p.decision values).Fits x →
      checkParams a m special v (before ++ p :: after) = checkParams a m special v after) ∧
    (¬(p.decision values).Fits x → ∃ refusal,
      checkParams a m special v (before ++ p :: after) = refuse refusal a.id ∧
        refusal.reason = .badParams) := by
  have hcheck : checkParams a m special v (before ++ p :: after) =
      checkParams a m special v (p :: after) := by
    rw [checkParams_append, hbefore]
    rfl
  rw [hcheck, checkParams, hvalues, hx]
  cases x with
  | many ys =>
    constructor
    · intro hfits
      cases hfits.1
    · intro _
      exact ⟨_, rfl, rfl⟩
  | one y =>
    have hfits : (p.decision values).Fits (.one y) ↔ y.isIn values := by
      simp [Decision.Fits, Decision.Offers, Param.decision, Decision.one, Scalar.isIn]
    constructor
    · intro h
      exact if_pos (hfits.1 h)
    · intro h
      exact ⟨_, if_neg (fun hin => h (hfits.2 hin)), rfl⟩

/-- A selector asks only for the declared param that it reads. -/
theorem param_of_checkSelected {sel : SeatSelector}
    (h : checkSelected a m special v sel = .error (.pending q)) :
    ∃ p ∈ a.params, ∃ values, sel = .binding p.name ∧
      q = { decision := p.decision values, special } := by
  unfold checkSelected at h
  cases sel with
  | active => cases h
  | any => cases h
  | allOther => cases h
  | id seat => cases h
  | ids seats => cases h
  | binding name =>
    dsimp only at h
    cases hp : a.param? name with
    | none => rw [hp] at h; cases h
    | some p =>
      rw [hp] at h
      have hname : p.name = name := by simpa using List.find?_some hp
      obtain ⟨values, -, h⟩ := Proper.bind_eq_pending (.lift (fun _ _ => trivial)) h
      cases hchosen : m.params.get? name with
      | none =>
        rw [hchosen] at h
        cases h
        exact ⟨p, List.mem_of_find?_eq_some hp, values, congrArg _ hname.symm, rfl⟩
      | some chosen =>
        rw [hchosen] at h
        dsimp only at h
        split at h
        · cases h
        · cases h

/-- Where the seats ask for a param, one of the two selectors reads it. -/
theorem param_of_checkSeats (h : checkSeats a m special v = .error (.pending q)) :
    ∃ p ∈ a.params, ∃ values, (a.actor = .binding p.name ∨ a.executor = .binding p.name) ∧
      q = { decision := p.decision values, special } := by
  rcases bind_eq_error h with hactor | ⟨⟨⟩, -, h⟩
  · obtain ⟨p, hp, values, hreads, hq⟩ := param_of_checkSelected hactor
    exact ⟨p, hp, values, .inl hreads, hq⟩
  · rcases bind_eq_error h with hexecutor | ⟨⟨⟩, -, h⟩
    · obtain ⟨p, hp, values, hreads, hq⟩ := param_of_checkSelected hexecutor
      exact ⟨p, hp, values, .inr hreads, hq⟩
    · obtain ⟨actors, -, h⟩ := Proper.bind_eq_pending (.lift (fun _ _ => trivial)) h
      obtain ⟨executor, -, h⟩ := Proper.bind_eq_pending (.lift (fun _ _ => trivial)) h
      obtain ⟨⟨⟩, -, h⟩ := Proper.bind_eq_pending (Proper.ensure _ _ _) h
      cases h

/-- An action is asked for a param by its selectors, or once its seats are settled. -/
theorem make_eq_pending {g : Game} {s : State} {free : Bool}
    (h : make g s m a free special = .error (.pending q)) :
    checkSeats a m special ⟨g, s, .ofParams m.params, s.active⟩ = .error (.pending q) ∨
      ∃ executor, checkSeats a m special ⟨g, s, .ofParams m.params, s.active⟩ = .ok executor ∧
        checkAvailable a s = .ok () ∧
        checkParams a m special ⟨g, s, .ofParams m.params, executor⟩ a.params =
          .error (.pending q) := by
  rcases bind_eq_error h with hseats | ⟨executor, hseats, h⟩
  · exact .inl hseats
  · obtain ⟨⟨⟩, havailable, h⟩ := Proper.bind_eq_pending (checkAvailable_asks a s) h
    refine .inr ⟨executor, hseats, havailable, ?_⟩
    rcases bind_eq_error h with hparams | ⟨⟨⟩, -, h⟩
    · exact hparams
    · obtain ⟨holds, -, h⟩ := Proper.bind_eq_pending (.lift (fun _ _ => trivial)) h
      obtain ⟨⟨⟩, -, h⟩ := Proper.bind_eq_pending (Proper.ensure _ _ _) h
      obtain ⟨⟨cost, stages, payment⟩, -, h⟩ := Proper.bind_eq_pending (checkPipeline_asks a free) h
      cases h

/-- What planning an action asks for is one of its declared params. -/
theorem param_of_make {g : Game} {s : State} {free : Bool}
    (h : make g s m a free special = .error (.pending q)) :
    ∃ p ∈ a.params, ∃ values, q = { decision := p.decision values, special } := by
  rcases make_eq_pending h with hseats | ⟨executor, -, -, hparams⟩
  · obtain ⟨p, hp, values, -, hq⟩ := param_of_checkSeats hseats
    exact ⟨p, hp, values, hq⟩
  · obtain ⟨before, p, after, values, hps, -, -, -, hq⟩ := exists_of_checkParams hparams
    exact ⟨p, hps ▸ List.mem_append_right before List.mem_cons_self, values, hq⟩

/-- An action that no selector asks a param for is asked for it once its seats are settled. -/
theorem checkParams_of_make {g : Game} {s : State} {free : Bool}
    (hactor : a.actor ≠ .binding q.decision.name)
    (hexecutor : a.executor ≠ .binding q.decision.name)
    (h : make g s m a free special = .error (.pending q)) :
    ∃ executor, checkSeats a m special ⟨g, s, .ofParams m.params, s.active⟩ = .ok executor ∧
      checkAvailable a s = .ok () ∧
      checkParams a m special ⟨g, s, .ofParams m.params, executor⟩ a.params =
        .error (.pending q) := by
  rcases make_eq_pending h with hseats | hparams
  · obtain ⟨p, -, values, hreads | hreads, rfl⟩ := param_of_checkSeats hseats
    · exact absurd hreads hactor
    · exact absurd hreads hexecutor
  · exact hparams

end Plan

namespace Rules

variable (r : Rules) (s : State)

/-- No selector of a move's action reads a name under which a param is declared. -/
def Unread (m : Move) (name : String) : Prop :=
  ∀ a, r.definition.action? m.action = some a → (∃ p ∈ a.params, p.name = name) →
    a.actor ≠ .binding name ∧ a.executor ≠ .binding name

/-- A move gets past a declared param: its seats are settled, and so are its params up to that
one. -/
def GetsPastParam (m : Move) (name : String) : Prop :=
  ∃ a executor, r.definition.action? m.action = some a ∧
    Plan.checkSeats a m false ⟨r.game, s, .ofParams m.params, s.active⟩ = .ok executor ∧
    Plan.checkParams a m false ⟨r.game, s, .ofParams m.params, executor⟩
    (Param.upTo name a.params) =
      .ok ()

variable {r s} {m : Move} {q : Request}

/-- An answer for a declared param gets a move past the param if it fits, and else the move is
refused. -/
theorem answered_param (hplain : m.compound = none) (hunread : r.Unread m q.decision.name)
    (h : r.plan s m = .error (.pending q)) (v : Selection) :
    (q.decision.Fits v → r.GetsPastParam s (m.answer q v) q.decision.name) ∧
      (¬q.decision.Fits v → ¬r.GetsPastParam s (m.answer q v) q.decision.name ∧
        ∃ rejection, r.plan s (m.answer q v) = .error (.refused rejection) ∧
          rejection.refusal.reason = .badParams) := by
  have hasks := r.plan_asks s m
  rw [h] at hasks
  obtain ⟨⟨-, hdeclared⟩, -⟩ := hasks
  have hresolve : r.resolve s m = .error (.pending q) := by
    rw [r.resolve_eq, h]
    rfl
  have hm : m.Within (m.answer q v) := within_answer hresolve v
  have hselects := answer_selects m q v
  generalize m.answer q v = m' at hm hselects ⊢
  -- The param is asked for after the seats and the params before it have been settled.
  obtain ⟨⟨a, grant⟩, hscreened, hplan⟩ := Proper.bind_eq_pending (r.screen_asks s m) h
  have haction := (r.screen_asks s m).of_ok hscreened
  have hmake : Plan.make r.game s m a m.free false = .error (.pending q) := by
    rcases bind_eq_error hplan with hmake | ⟨host, -, hcompound⟩
    · exact hmake
    · unfold planCompound at hcompound
      rw [hplain] at hcompound
      cases hcompound
  have hnone : m.side q.special = m := by
    unfold Move.side
    rw [hplain]
  rw [hnone, declared, haction] at hdeclared
  obtain ⟨hactor, hexecutor⟩ := hunread a haction hdeclared
  obtain ⟨executor, hseats, havailable, hparams⟩ := Plan.checkParams_of_make hactor hexecutor hmake
  obtain ⟨before, p, after, values, hps, hbefore, hvalues, hlacks, rfl⟩ :=
    Plan.exists_of_checkParams hparams
  rw [m'.asked_eq_side, m'.side_false] at hselects
  -- The answered move gets as far.
  have hbelow := Widening.below_ofParams hm.params
  obtain ⟨_, hseats', rfl⟩ :=
    (Plan.checkSeats_paired (v := ⟨r.game, s, _, s.active⟩) a hbelow hbelow
    (fun hs => by cases hs)).of_ok hseats
  obtain ⟨⟨⟩, hbefore', -⟩ :=
    (Plan.checkParams_paired (v := ⟨r.game, s, _, executor⟩) a hbelow hbelow
    (fun hs => by cases hs) before).of_ok hbefore
  have hvalues' := (Plan.domain_stays (v := ⟨r.game, s, _, executor⟩) p hbelow).eq_ok hvalues
  have hupTo : Param.upTo p.name a.params = before ++ [p] := by
    rw [hps]
    refine Param.upTo_append rfl after (fun o ho hname => ?_)
    obtain ⟨x, hx⟩ := Plan.checkParams_single hbefore o ho
    rw [hname, hlacks] at hx
    cases hx
  have hpast := Plan.checkParams_selected hbefore' hvalues' hselects
  constructor
  · intro hfits
    refine ⟨a, executor, by rw [hm.action]; exact haction, hseats', ?_⟩
    rw [show (p.decision values).name = p.name from rfl, hupTo]
    exact (hpast []).1 hfits
  · intro hnot
    constructor
    · rintro ⟨a', executor', ha', hseats'', hpast'⟩
      rw [hm.action] at ha'
      obtain rfl := Option.some.inj (haction.symm.trans ha')
      cases hseats'.symm.trans hseats''
      rw [show (p.decision values).name = p.name from rfl, hupTo] at hpast'
      obtain ⟨refusal, hrefused, -⟩ := (hpast []).2 hnot
      cases hrefused.symm.trans hpast'
    · obtain ⟨refusal, hrefused, hreason⟩ := (hpast after).2 hnot
      rw [← hps] at hrefused
      have hrefused' : Plan.checkParams a m' false ⟨r.game, s, .ofParams m'.params, executor⟩
          a.params = refuse refusal a.id := hrefused
      refine ⟨{ refusal, action := a.id }, ?_, hreason⟩
      have hmake' : Plan.make r.game s m' a m'.free false =
          .error (.refused { refusal, action := a.id }) := by
        refine bind_ok hseats' (bind_ok havailable ?_)
        change Plan.checkParams a m' false ⟨r.game, s, .ofParams m'.params, executor⟩ a.params >>=
          _ = _
        rw [hrefused']
        rfl
      refine bind_ok (r.screen_plain s hm hplain hscreened) ?_
      dsimp only
      rw [hmake']
      rfl

/-- An answered move gets past a decision: past the declared param, or past the operation, for which
the move was asked. -/
def GetsPastDecision (r : Rules) (s : State) (m : Move) (q : Request) (m' : Move) : Prop :=
  (r.plan s m = .error (.pending q) ∧ r.GetsPastParam s m' q.decision.name) ∨
    ∃ t n, r.plan s m = .ok t ∧ r.AskedAt s m n q ∧ r.GetsPast s m' n

/-- What is refused stands illegal. -/
theorem standing_of_refused {rejection : Rejection}
    (h : r.resolve s m = .error (.refused rejection)) :
    r.standing s m = .ok (.illegal rejection) := by
  unfold standing
  rw [h]

/-- An answer gets a move without a special activity past a decision exactly if it fits; any other
answer makes the move illegal. -/
theorem answered (hplain : m.compound = none) (hunread : r.Unread m q.decision.name)
    (h : r.resolve s m = .error (.pending q)) (v : Selection) :
    (r.GetsPastDecision s m q (m.answer q v) ↔ q.decision.Fits v) ∧
      (¬q.decision.Fits v → ∃ rejection, r.standing s (m.answer q v) = .ok (.illegal rejection) ∧
        rejection.refusal.reason = .badParams) := by
  rcases asked_cases h with hplan | ⟨t, n, ht, hn⟩
  · obtain ⟨hfits, hmisfits⟩ := answered_param hplain hunread hplan v
    refine ⟨⟨?_, fun hv => .inl ⟨hplan, hfits hv⟩⟩, fun hv => ?_⟩
    · rintro (⟨-, hpast⟩ | ⟨t, n, ht, -⟩)
      · by_contra hv
        exact (hmisfits hv).1 hpast
      · cases hplan.symm.trans ht
    · obtain ⟨-, rejection, hrefused, hreason⟩ := hmisfits hv
      refine ⟨rejection, standing_of_refused ?_, hreason⟩
      rw [r.resolve_eq, hrefused]
      rfl
  · have hm := within_answer h v
    obtain ⟨t', ht', -⟩ := r.plan_plain s hm hplain ht
    have hasks := r.resolve_asks s m
    rw [h] at hasks
    obtain ⟨hfits, hmisfits⟩ := hn.answered h ht hm ht' (answer_selects m q v)
    rw [hasks.2.takes_iff] at hfits hmisfits
    refine ⟨⟨?_, fun hv => .inr ⟨t, n, ht, hn, hfits hv⟩⟩, fun hv => ?_⟩
    · rintro (⟨hplan, -⟩ | ⟨-, k, -, hk, hpast⟩)
      · cases hplan.symm.trans ht
      · by_contra hv
        obtain rfl := hn.unique hk
        obtain ⟨cause, action, hrefused⟩ := hmisfits hv
        rcases hpast with ⟨x, hx⟩ | ⟨path, hpath⟩
        · cases hrefused.symm.trans hx
        · cases hrefused.symm.trans hpath
    · -- With all operations, the answer is refused as with those that lead to the decision.
      obtain ⟨cause, action, hrefused⟩ := hmisfits hv
      exact ⟨_, standing_of_le hn.le (standing_of_refused hrefused), rfl⟩

/-- A move with a selection is not asked for it on that side. -/
theorem name_ne_of_selected {m' : Move} {q' : Request} {v : Selection}
    (hm : (m.answer q v).Within m') (h : r.resolve s m' = .error (.pending q'))
    (hside : q'.special = q.special) : q'.decision.name ≠ q.decision.name := by
  intro hname
  have hasks := r.resolve_asks s m'
  rw [h] at hasks
  have hlacks := hasks.1.lacks
  have hselects := (hm.asked q) _ _ (answer_selects m q v)
  rw [m'.asked_eq_side] at hlacks hselects
  rw [hside, hname, hselects] at hlacks
  cases hlacks

/-- A number of answers, one after the other, each to what the move is asked then. -/
inductive Chain (r : Rules) (s : State) : Nat → Move → Move → Prop where
  | none (m : Move) : Chain r s 0 m m
  | next {k : Nat} {m m' : Move} {q : Request} (hasked : r.standing s m = .ok (.pending q))
      (v : Selection) (hrest : Chain r s k (m.answer q v) m') : Chain r s (k + 1) m m'

/-- A chain of answers is no longer than chains of answers may be. -/
theorem Chain.le {k : Nat} {m m' : Move} (h : r.Chain s k m m') :
    ∀ {l : Nat}, r.ChainsWithin s l m → k ≤ l := by
  induction h with
  | none m =>
    intro l _
    exact Nat.zero_le l
  | next hasked v _ ih =>
    intro l hl
    have hpending := standing_eq_pending.1 hasked
    cases l with
    | zero => exact absurd hpending (hl _)
    | succ l => exact Nat.succ_le_succ (ih (hl _ hpending v))

/-- An answer settles a decision: the move is not asked for it again, whatever it is asked later.  A
move without a special activity gets past the decision exactly if the answer fits, and any other
answer makes it illegal.  So chains of answers are bounded, and exploring a move never runs out of
levels. -/
theorem answers_settle (r : Rules) (s : State) (m : Move) :
    (∀ q, r.standing s m = .ok (.pending q) → ∀ v,
      (∀ m' q', (m.answer q v).Within m' → r.standing s m' = .ok (.pending q') →
        q'.special = q.special → q'.decision.name ≠ q.decision.name) ∧
      (m.compound = none → r.Unread m q.decision.name →
        (r.GetsPastDecision s m q (m.answer q v) ↔ q.decision.Fits v) ∧
        (¬q.decision.Fits v → ∃ rejection,
          r.standing s (m.answer q v) = .ok (.illegal rejection) ∧
            rejection.refusal.reason = .badParams))) ∧
    (∀ k m', r.Chain s k m m' → k ≤ r.declaredCount m + r.limits.maxOps.toNat) ∧
    ∀ cap fuel found, r.depthOf m ≤ fuel →
      r.explore s cap fuel m found = r.explore s cap (r.depthOf m) m found := by
  refine ⟨fun q hq v => ?_, fun k m' hchain => ?_, fun cap fuel found hfuel => ?_⟩
  · have hpending := standing_eq_pending.1 hq
    constructor
    · intro m' q' hm hq' hside
      exact name_ne_of_selected hm (standing_eq_pending.1 hq') hside
    · intro hplain hunread
      exact answered hplain hunread hpending v
  · have hle := hchain.le (chainsWithin m)
    exact Nat.le_trans hle (Nat.add_le_add_right (r.lacking_le m) _)
  · exact explore_fuel m hfuel found

end Rules

/-- What is asked of a seat who melts a coin while the mint has one. -/
def Request.coin : Request where
  decision := .one "stage[0:main]/0:chooseOne::coin" "coin" [.token "coin#0"]
  special := false

/-- The coin can be melted, and a medal cannot. -/
theorem Rules.answers_settle_mint :
    Rules.mint.standing .mint (.named "melt") = .ok (.pending .coin) ∧
      Rules.mint.GetsPastDecision .mint (.named "melt") .coin
        ((Move.named "melt").answer .coin (.one (.str "coin#0"))) ∧
      ∃ rejection, Rules.mint.standing .mint
          ((Move.named "melt").answer .coin (.one (.str "medal"))) = .ok (.illegal rejection) ∧
        rejection.refusal.reason = .badParams := by
  have hasked : Rules.mint.standing .mint (.named "melt") = .ok (.pending .coin) :=
    eq_ok_of_toOption (by decide +kernel)
  have hunread : Rules.mint.Unread (.named "melt") Request.coin.decision.name := by
    rintro a ha ⟨p, hp, -⟩
    cases ha
    cases hp
  have hsettles := (Rules.mint.answers_settle .mint (.named "melt")).1 _ hasked
  obtain ⟨hfits, -⟩ := (hsettles (.one (.str "coin#0"))).2 rfl hunread
  obtain ⟨-, hmisfits⟩ := (hsettles (.one (.str "medal"))).2 rfl hunread
  exact ⟨hasked, hfits.2 (by decide), hmisfits (by decide)⟩

end Tabletop
