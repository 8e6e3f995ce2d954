import Tabletop.Proofs.Effect.Cost
import Tabletop.Proofs.Play.Asking

/-!
# How many selections a move needs

A move needs a selection if it is asked for it without.  It needs no more selections than its action
has declared params and its effects may spend operations.

Main statement: `Rules.card_needed_le`.
-/

namespace Tabletop

open Relation (ReflTransGen)

/-! ## Fewer selections -/

/-- A key that has been erased has no value, and the others have theirs. -/
theorem Dict.get?_erase {α : Type} (d : Dict α) (k l : String) :
    (d.erase k).get? l = if l = k then none else d.get? l := by
  obtain ⟨es, h⟩ := d
  simp only [get?, erase]
  clear h
  induction es with
  | nil => simp
  | cons e es ih =>
    obtain ⟨m, x⟩ := e
    by_cases hm : m = k
    · subst hm
      rw [List.filter_cons_of_neg (by simp), ih, List.lookup_cons]
      by_cases hl : l = m
      · simp [hl]
      · simp [hl, beq_eq_false_iff_ne.2 hl]
    · rw [List.filter_cons_of_pos (by simpa using hm), List.lookup_cons, List.lookup_cons, ih]
      by_cases hl : l = m
      · simp [hl, hm]
      · simp [beq_eq_false_iff_ne.2 hl]

/-- The move without a selection. -/
def Move.without (m : Move) (name : String) : Move := { m with params := m.params.erase name }

/-- What a move selects with a selection less, it selects. -/
theorem Move.get?_of_without (m : Move) (name : String) (k : String) (x : Selection)
    (h : (m.without name).params.get? k = some x) : m.params.get? k = some x := by
  rw [without, Dict.get?_erase] at h
  split at h
  · cases h
  · exact h

namespace Widening

/-- Bindings of fewer selections have those of more below them. -/
theorem below_ofParams {d e : Dict Selection} (h : ∀ k x, d.get? k = some x → e.get? k = some x) :
    (adding (.ofParams e)).Below (.ofParams d) (.ofParams e) := by
  intro name
  change (Bindings.ofParams e).get? name =
    ((Bindings.ofParams d).get? name).or ((Bindings.ofParams e).get? name)
  rw [Bindings.get?_ofParams, Bindings.get?_ofParams]
  cases hd : d.get? name with
  | none => rfl
  | some x =>
    rw [h name x hd]
    rfl

/-- A move without a special activity is widened to one with more selections. -/
theorem moves_of_within {m n : Move} (hm : m.compound = none)
    (heq : n = { m with params := n.params })
    (h : ∀ k x, m.params.get? k = some x → n.params.get? k = some x) :
    (adding (.ofParams n.params)).Moves m n :=
  ⟨heq, below_ofParams h, .inl hm⟩

/-- A performance with the same names in scope is the same. -/
theorem Performs.eq {p : Bindings} {x y : Performance} (h : (adding p).Performs x y) : y = x := by
  have hsession := h.session.eq
  have hwarnings := h.warnings
  cases x
  cases y
  cases hsession
  cases hwarnings
  rfl

/-- Where only names come in, moves come to the very same. -/
theorem Resolves.eq {p : Bindings} {x y : Resolution} (h : (adding p).Resolves x y) : y = x := by
  obtain ⟨hsession, haction, hexecutor, hspecial, hgrant, hwarnings⟩ := h
  have hsession := hsession.eq
  cases x
  cases y
  cases hsession
  cases haction
  cases hexecutor
  cases hspecial
  cases hgrant
  cases hwarnings
  rfl

end Widening

/-! ## Stages -/

/-- The name for which a move has been stopped, if it has been stopped for a selection. -/
def Stop.asked? : Stop → Option String
  | .pending q => some q.decision.name
  | .fault _ => none
  | .refused _ => none

/-- Reporting errors otherwise changes nothing about the names that are needed. -/
theorem Counts.mapError {ε δ α : Type} {asked : ε → Option String} {asked' : δ → Option String}
    {f : ε → δ} {b : Bindings} {n : Nat} {after : α → Nat} {a : Bindings → Except ε α}
    (h : Counts asked b n after a) (hf : ∀ e, asked' (f e) = asked e) :
    Counts asked' b n after (fun c => (a c).mapError f) := by
  intro y hy names hnames
  dsimp only at hy
  cases hab : a b with
  | error e =>
    rw [hab] at hy
    cases hy
  | ok x =>
    rw [hab] at hy
    cases hy
    apply h y hab names
    intro name hname
    obtain ⟨p, c, hc, e', he, hasked⟩ := hnames name hname
    dsimp only at he
    cases hac : a c with
    | ok z =>
      rw [hac] at he
      cases he
    | error e =>
      rw [hac] at he
      cases he
      exact ⟨p, c, hc, e, hac, (hf e).symm.trans hasked⟩

namespace Plan

variable {p : Plan} {c d : Bindings}

/-- The plan with other bindings. -/
def under (p : Plan) (c : Bindings) : Plan := { p with bindings := c }

/-- The bindings of a plan do not bear on its payment. -/
theorem under_payment (p : Plan) (c : Bindings) : (p.under c).payment = p.payment := rfl

/-- The bindings of a plan do not bear on its cost. -/
theorem under_cost (p : Plan) (c : Bindings) : (p.under c).cost = p.cost := rfl

/-- A plan for a host, with names coming in below, is a plan with more names in scope. -/
theorem plans_under (hp : p.special = false) (hc : (Widening.adding d).Below c p.bindings) :
    (Widening.adding d).Plans (p.under c) p :=
  ⟨p.bindings, rfl, hc, fun h => absurd (hp.symm.trans h) (by decide)⟩

/-- A performance is where it is. -/
theorem performs_refl (x : Performance) : (Widening.adding d).Performs x x :=
  ⟨Widening.inStep_refl x.session, rfl⟩

/-- The effects of a plan count an operation for every name that they need. -/
theorem runEffects_counts (p : Plan) (r : Rules) (cause : Cause) (root : String)
    (effects : List Effect) (x : Performance) :
    Counts Stop.asked? p.bindings x.session.ops (fun y => y.session.ops)
      (fun c => (p.under c).runEffects r cause root effects x) := by
  have hrun := x.session.run_counts (p.setting r cause) (p.pathStart ++ root) p.bindings effects
  have hstop (e : Halt) : (p.stop e).asked? = e.asked? := by cases e <;> rfl
  exact .bindPure Session.ops (hrun.mapError hstop) (fun _ => Nat.le_refl _)

/-- Paying for a plan counts an operation for every name that it needs. -/
theorem pay_counts (p : Plan) (r : Rules) (x : Performance) :
    Counts Stop.asked? p.bindings x.session.ops (fun y => y.session.ops)
      (fun c => (p.under c).pay r x) := by
  unfold pay
  have hquiet {y : Performance} (hy : y.session = x.session) :
      Counts Stop.asked? p.bindings x.session.ops (fun y => y.session.ops)
        (fun _ => (.ok y : Check Performance)) :=
    .quiet (fun z hz => by cases hz; exact Nat.le_of_eq (congrArg _ hy.symm))
      (fun _ _ he => by cases he)
  simp only [under_payment, under_cost]
  cases p.payment with
  | spend => exact p.runEffects_counts r _ _ _ x
  | skip pipeline => exact hquiet rfl
  | free => exact hquiet rfl

/-- The stages of a plan count an operation for every name that they need. -/
theorem runStages_counts (hp : p.special = false) (r : Rules) :
    ∀ (stages : List Stage) (i : Nat) (x : Performance),
      Counts Stop.asked? p.bindings x.session.ops (fun y => y.session.ops)
        (fun c => (p.under c).runStages r (fun _ x => .ok x) i stages x)
  | [], _, _ => .quiet (fun y hy => by cases hy; exact Nat.le_refl _) (fun _ _ he => by cases he)
  | stage :: stages, i, x => by
    simp only [runStages]
    refine .bind (fun y => y.session.ops) (p.runEffects_counts r _ _ _ x) ?_
      (fun y _ => runStages_counts hp r stages (i + 1) y)
    intro d c y hc hy
    have hpaired := runEffects_paired r .action
      ("stage[" ++ toString i ++ ":" ++ stage.name ++ "]") stage.effects (plans_under hp hc)
      (performs_refl x)
    obtain ⟨y', hy', hstep⟩ := hpaired.of_ok hy
    rwa [hstep.eq] at hy'

end Plan

namespace Rules

variable {r : Rules} {s : State}

/-- Carrying out a plan needs no more names than it spends operations. -/
theorem perform_counts {p : Plan} (hp : p.special = false) (x : Performance) :
    Counts Stop.asked? p.bindings x.session.ops (fun y => y.session.ops)
      (fun c => r.perform (p.under c) none x) := by
  refine .bind (fun y => y.session.ops) (p.pay_counts r x) ?_ (fun y _ => ?_)
  · intro d c y hc hy
    have hpaired := Plan.pay_paired r (Plan.plans_under hp hc) (Plan.performs_refl x)
    obtain ⟨y', hy', hstep⟩ := hpaired.of_ok hy
    rwa [hstep.eq] at hy'
  · exact .bindPure _ (Plan.runStages_counts hp r p.stages 0 y) (fun _ => Nat.le_refl _)

/-! ## Whole moves -/

/-- A move needs a selection: without it, it is asked for it. -/
def NeedsSelection (r : Rules) (s : State) (m : Move) (name : String) : Prop :=
  ∃ q, r.resolve s (m.without name) = .error (.pending q) ∧ q.decision.name = name

/-- The operations that runs under the rules spend stay within the budget. -/
theorem Runs.ops_le {x y : Session} (h : r.Runs x y) (hx : x.ops ≤ r.limits.maxOps.toNat) :
    y.ops ≤ r.limits.maxOps.toNat := by
  induction h with
  | refl => exact hx
  | tail _ hstep ih =>
    obtain ⟨setting, hunder, hstep⟩ := hstep
    cases hstep with
    | spend h =>
      rw [hunder.maxOps] at h
      exact Nat.le_trans (Nat.le_of_eq (Session.ops_tick h)) h
    | alter h =>
      rw [h.ops_eq]
      exact ih

/-- An action has at least as many params as their names. -/
theorem card_declared_le {a : Action} {names : Finset String}
    (hnames : ∀ name ∈ names, ∃ p ∈ a.params, p.name = name) : names.card ≤ a.params.length := by
  have hsub : names ⊆ (a.params.map Param.name).toFinset := by
    intro name hname
    obtain ⟨p, hp, rfl⟩ := hnames name hname
    exact List.mem_toFinset.2 (List.mem_map_of_mem hp)
  have hcard := (Finset.card_le_card hsub).trans (List.toFinset_card_le _)
  rwa [List.length_map] at hcard

/-- A move needs no more selections than its action has declared params and its effects may spend
operations. -/
theorem card_needed_le {m : Move} {a : Action} {x : Resolution} (hm : m.compound = none)
    (ha : r.definition.action? m.action = some a) (hx : r.resolve s m = .ok x)
    {names : Finset String} (hnames : ∀ name ∈ names, r.NeedsSelection s m name) :
    names.card ≤ a.params.length + r.limits.maxOps.toNat := by
  obtain ⟨a', host, y, ha', hhost, hy, hyx⟩ := resolve_plain_eq_ok hm hx
  cases ha.symm.trans ha'
  obtain ⟨-, hbindings, hspecial⟩ : host.For m a false := by
    have hmake := Plan.make_asks r.game s m a m.free false
    rw [hhost] at hmake
    exact hmake
  have hruns : r.Runs { state := s } y.session := by
    have hresolved := r.resolve_asks s m
    rw [hx] at hresolved
    rw [hyx]
    exact hresolved.runs
  -- A declared param is needed before any operation is spent.
  have hdeclared (ns : Finset String) (hns : ∀ name ∈ ns, ∃ p ∈ a.params, p.name = name) :
      0 + ns.card ≤ a.params.length := by
    rw [Nat.zero_add]
    exact card_declared_le hns
  have hperformed (ns : Finset String)
      (hns : ∀ name ∈ ns, Needs Stop.asked? host.bindings
        (fun c => r.perform (host.under c) none { session := { state := s } }) name) :
      a.params.length + ns.card ≤ a.params.length + r.limits.maxOps.toNat := by
    have hcount := perform_counts hspecial { session := { state := s } } y hy ns hns
    have hops := Runs.ops_le hruns (Nat.zero_le _)
    dsimp only at hcount
    omega
  suffices hsplit : 0 + names.card ≤ a.params.length + r.limits.maxOps.toNat by
    rwa [Nat.zero_add] at hsplit
  refine Counts.split (fun name hname => ?_) hdeclared hperformed
  obtain ⟨q, hq, rfl⟩ := hnames name hname
  rcases resolve_plain_eq_pending (m := m.without q.decision.name) hm ha hq with hmake | hmake
  · have hasked := Plan.make_asks r.game s (m.without q.decision.name) a m.free false
    change Plan.make r.game s _ a m.free false = _ at hmake
    rw [hmake] at hasked
    exact .inl hasked.1.2
  · obtain ⟨host', hhost', hperform⟩ := hmake
    obtain ⟨z, hz, b', hzhost, hbelow, -⟩ := (Plan.make_paired (w := .adding (.ofParams m.params))
      r.game s a m.free (Widening.below_ofParams (m.get?_of_without q.decision.name))
      (fun hs => absurd hs (by decide))).of_ok hhost'
    cases hz.symm.trans hhost
    subst hzhost
    exact .inr ⟨_, host'.bindings, hbelow, _, hperform, rfl⟩

end Rules

end Tabletop
