import Tabletop.Proofs.Play.Interrupts

/-!
# The order of phases

In a game without cards the game goes on from phase to phase: when a regular phase has been left,
the next one is entered, and after the last one the turn is closed.  Which phase is next is asked
only when the phase has been left.  If that brings an interrupt, the interrupt is current by then;
and since no regular phase follows an interrupt, the turn is closed at once, whatever phases were
still to come.

Main statement: `Rules.inOrder_iff`, with a pursuit that costs a side its second phase.
-/

namespace Tabletop

/-! ## Regular phases in order -/

namespace State

variable {s s' : State} {d : Definition}

/-- A regular phase is followed by the next one of the same turn, or, if it is the last, by the
first one of the next turn. -/
inductive InOrder (d : Definition) (s s' : State) : Prop where
  | next {i : Nat} {next : Phase} (hi : d.turn.index? s.basePhase = some i)
      (hnext : d.turn.phases[i + 1]? = some next) (hphase : s'.basePhase = next.id)
      (hturn : s'.turn = s.turn) : InOrder d s s'
  | wrap {i : Nat} (hi : d.turn.index? s.basePhase = some i) (hlast : d.turn.phases.length = i + 1)
      (hphase : d.firstPhase? = some s'.basePhase) (hturn : s'.turn = s.turn + 1) : InOrder d s s'

/-- The base of a line of phases is its first one. -/
theorem basePhase_of_line {first : PhaseId} {rest : List PhaseId} (h : s.line = first :: rest) :
    s.basePhase = first := by
  have hhead := s.head?_line
  rw [h] at hhead
  exact (Option.some.inj hhead).symm

/-- Where nothing is suspended, the current phase is the base. -/
theorem basePhase_of_none (h : s.suspended = []) : s.basePhase = s.phase := by
  rw [basePhase, h]
  rfl

/-- The next turn starts with the first phase of the definition. -/
theorem NextTurn.firstPhase? (h : s.NextTurn d s') : d.firstPhase? = some s'.basePhase := by
  obtain ⟨first, pushed, hfirst, hline, -⟩ := h.line
  rw [basePhase_of_line hline, hfirst]

/-- The next turn is in order after the last phase. -/
theorem inOrder_iff_of_nextTurn (h : s.NextTurn d s') {i : Nat}
    (hi : d.turn.index? s.basePhase = some i) : s.InOrder d s' ↔ d.turn.phases.length = i + 1 := by
  constructor
  · rintro (⟨-, -, -, hturn⟩ | ⟨hi', hlast, -, -⟩)
    · rw [h.turn] at hturn
      simp at hturn
    · obtain rfl := Option.some.inj (hi.symm.trans hi')
      exact hlast
  · exact fun hlast => .wrap hi hlast h.firstPhase? h.turn

/-- In the same moment the base of the phases is the same. -/
theorem SameMoment.basePhase (h : s.SameMoment s') : s'.basePhase = s.basePhase := by
  rw [State.basePhase, State.basePhase, h.suspended, h.phase]

end State

/-- The place of a phase in the turn is one of as many as there are phases. -/
theorem TurnStructure.lt_of_index? {t : TurnStructure} {phase : PhaseId} {i : Nat}
    (h : t.index? phase = some i) : i < t.phases.length :=
  (List.findIdx?_eq_some_iff_getElem.1 h).1

namespace Rules

variable {r : Rules} {p q : Progress} {s : State} {m : Move}

/-- Resuming a phase leaves the regular phase and the turn alone, whatever leaving the interrupt
brings. -/
theorem basePhase_of_resume (hsuspended : p.state.suspended ≠ []) (h : r.transition p = .ok q) :
    q.state.basePhase = p.state.basePhase ∧ q.state.turn = p.state.turn := by
  obtain ⟨under, phase, hunder, hphase, hturn, hafter⟩ := suspended_of_resume hsuspended h
  refine ⟨?_, hturn⟩
  have hsame : q.state.suspended.head?.getD phase = p.state.suspended.head?.getD p.state.phase := by
    rcases hafter with ⟨-, hafter⟩ | ⟨-, between, hafter, -⟩ <;> rw [hafter, hunder] <;>
      cases under <;> rfl
  rw [State.basePhase, State.basePhase, hphase, hsame]

/-- Where nothing has been suspended, the order of phases is kept exactly unless leaving a phase
brings an interrupt although another phase was to come.  With an interrupt, the turn is closed. -/
theorem inOrder_iff_of_none (hcards : r.definition.order.cards? = none)
    (hdistinct : r.definition.turn.Distinct) (hnone : p.state.suspended = [])
    {i : Nat} (hi : r.definition.turn.index? p.state.phase = some i) (h : r.transition p = .ok q) :
    (p.state.InOrder r.definition q.state ↔
        ¬ (r.Disturbed p ∧ i + 1 < r.definition.turn.phases.length)) ∧
      (r.Disturbed p → p.state.NextTurn r.definition q.state) := by
  have hbase : r.definition.turn.index? p.state.basePhase = some i := by
    rw [State.basePhase_of_none hnone]
    exact hi
  have hlt := TurnStructure.lt_of_index? hi
  cases shift_of_transition h with
  | resume hlast =>
    rw [hnone] at hlast
    cases hlast
  | pass _ hsome =>
    rw [hcards] at hsome
    cases hsome
  | passAll _ hsome =>
    rw [hcards] at hsome
    cases hsome
  | @enter phase p' pushed more _ _ hleave hpushed hafter hline hmore hturn =>
    obtain rfl := hpushed.eq_nil hdistinct (TurnStructure.isSome_index?_of_after? hafter).1
    have hcalm : ¬ r.Disturbed p := by simp [disturbed_iff hleave hpushed]
    obtain ⟨hsuspended, hphase⟩ := hpushed.same
    rw [hphase, TurnStructure.after?, hi] at hafter
    obtain ⟨next, hnext, rfl⟩ := Option.map_eq_some_iff.1 hafter
    rw [hsuspended, hnone] at hline
    have horder : p.state.InOrder r.definition q.state :=
      .next hbase hnext (State.basePhase_of_line hline) hturn
    exact ⟨iff_of_true horder (fun hskips => hcalm hskips.1),
      fun hdisturbed => absurd hdisturbed hcalm⟩
  | @close p' pushed _ _ hleave hpushed hafter hnext =>
    refine ⟨?_, fun _ => hnext⟩
    rw [State.inOrder_iff_of_nextTurn hnext hbase, disturbed_iff hleave hpushed]
    by_cases hcalm : pushed = []
    · -- The phase that is current is the one that has been left, and none follows it.
      subst hcalm
      rw [hpushed.same.2, TurnStructure.after?, hi] at hafter
      have hlast := List.getElem?_eq_none_iff.1 (Option.map_eq_none_iff.1 hafter)
      exact iff_of_true (by omega) (fun hskips => hskips.1 rfl)
    · simp only [ne_eq, hcalm, not_false_eq_true, true_and]
      omega

/-- On the way to the next decision the regular phase stays a regular one. -/
theorem isSome_basePhase_of_transition (hdistinct : r.definition.turn.Distinct)
    (h : r.transition p = .ok q)
    (hp : (r.definition.turn.index? p.state.basePhase).isSome = true) :
    (r.definition.turn.index? q.state.basePhase).isSome = true := by
  by_cases hnone : p.state.suspended = []
  · cases shift_of_transition h with
    | resume hlast =>
      rw [hnone] at hlast
      cases hlast
    | pass _ _ hsame =>
      rw [hsame.basePhase]
      exact hp
    | passAll _ _ hnext => exact Definition.isSome_index?_first hnext.firstPhase?
    | close _ _ _ _ _ hnext => exact Definition.isSome_index?_first hnext.firstPhase?
    | @enter phase p' pushed more _ _ hleave hpushed hafter hline hmore hturn =>
      obtain ⟨hcurrent, hregular⟩ := TurnStructure.isSome_index?_of_after? hafter
      obtain rfl := hpushed.eq_nil hdistinct hcurrent
      rw [hpushed.same.1, hnone] at hline
      rw [State.basePhase_of_line hline]
      exact hregular
  · rw [(basePhase_of_resume hnone h).1]
    exact hp

/-- A move leaves a regular phase as the base, if it was one. -/
theorem isSome_basePhase_of_comesTo (hdistinct : r.definition.turn.Distinct) (h : r.ComesTo s m q)
    (hs : (r.definition.turn.index? s.basePhase).isSome = true) :
    (r.definition.turn.index? q.state.basePhase).isSome = true := by
  obtain ⟨x, p, p', k, hx, hcarried, hout, hpasses⟩ := h
  refine Passes.invariant (P := fun s => (r.definition.turn.index? s.basePhase).isSome = true)
    (isSome_basePhase_of_transition hdistinct) hpasses ?_
  rcases hout.phases hx hcarried with ⟨pushed, hpushed⟩ | hnext
  · rw [hpushed.basePhase]
    exact hs
  · exact Definition.isSome_index?_first hnext.firstPhase?

/-- Suppose that all phases of a game without cards have ids of their own.  A move that is made
comes to its end by transitions.  One that resumes a phase leaves the regular phase and the turn
alone.  One out of a regular phase on which nothing is suspended keeps the order of phases exactly
unless leaving the phase brings an interrupt although another phase was to come; for with an
interrupt it closes the turn. -/
theorem inOrder_iff (hcards : r.definition.order.cards? = none)
    (hdistinct : r.definition.turn.Distinct) {res : MoveResult} (h : r.makeMove s m = .ok res) :
    (∃ q, r.ComesTo s m q ∧ r.atDecision q.state = .ok true ∧ res.state = q.state.stamp) ∧
      ∀ p q, r.ComesTo s m p → r.transition p = .ok q →
        ((r.definition.turn.index? s.basePhase).isSome = true →
            (r.definition.turn.index? p.state.basePhase).isSome = true) ∧
          (p.state.suspended ≠ [] →
            q.state.basePhase = p.state.basePhase ∧ q.state.turn = p.state.turn) ∧
          (p.state.suspended = [] → ∀ i, r.definition.turn.index? p.state.phase = some i →
            (p.state.InOrder r.definition q.state ↔
                ¬ (r.Disturbed p ∧ i + 1 < r.definition.turn.phases.length)) ∧
              (r.Disturbed p → p.state.NextTurn r.definition q.state)) := by
  refine ⟨comesTo_of_makeMove h, fun p q hcomes hstep => ⟨?_, ?_, ?_⟩⟩
  · exact isSome_basePhase_of_comesTo hdistinct hcomes
  · exact fun hsuspended => basePhase_of_resume hsuspended hstep
  · exact fun hnone i hi => inOrder_iff_of_none hcards hdistinct hnone hi hstep

end Rules

/-! ## A pursuit -/

/-- A game with two phases, in which the first side that leaves the main phase is ambushed. -/
def Definition.pursuit : Definition :=
  { Definition.minimal "pursuit" with
    turn := { phases := [⟨"main"⟩, ⟨"end"⟩], interrupts := [⟨"ambush"⟩] }
    globalVars := [.ofInt "sprung" 0 0 1]
    actions := [
      { id := "march", phases := ["main"], limits := [{ scope := .turn, max := 1 }] },
      { id := "rest", phases := ["end"] }]
    triggers := [{
      id := "spring", pattern := .phaseExit (some "main")
      when := some (.eq (.globalVar "sprung") (.int 0))
      effects := [.setGlobal "sprung" (.int 1), .pushInterruptPhase "ambush"] }] }

/-- The rules of that game, under the usual limits. -/
def Rules.pursuit : Rules := { game := .ofDefinition .pursuit }

/-- Where two seats start that game. -/
def State.pursuit : State := (Rules.pursuit.game.start 2 0).toOption.getD default

/-- The progress with which the game sets out for the next decision after a march. -/
def Progress.pursuit : Progress :=
  (((Rules.pursuit.resolve .pursuit (.named "march")).toOption.bind (fun x =>
    (Rules.pursuit.carryOut (.named "march") State.pursuit.active x).toOption)).map (fun p =>
      p.withState (p.state.afterMove Rules.pursuit.definition (.named "march")).2)).getD default

/-- After a march the pursuit sets out with the side in the ambush. -/
theorem Rules.comesTo_pursuit : Rules.pursuit.ComesTo .pursuit (.named "march") .pursuit := by
  obtain ⟨x, hx⟩ : ∃ x, Rules.pursuit.resolve .pursuit (.named "march") = .ok x :=
    exists_ok_of_isOk (by decide +kernel)
  obtain ⟨p, hp⟩ : ∃ p, Rules.pursuit.carryOut (.named "march") State.pursuit.active x = .ok p := by
    have hcarries : ((Rules.pursuit.resolve .pursuit (.named "march")).toOption.map (fun x =>
        (Rules.pursuit.carryOut (.named "march") State.pursuit.active x).isOk)) = some true := by
      decide +kernel
    rw [hx] at hcarries
    exact exists_ok_of_isOk (Option.some.inj hcarries)
  refine ⟨x, p, .pursuit, 0, hx, hp, ?_, .none _⟩
  have hopen : (p.state.afterMove Rules.pursuit.definition (.named "march")).1.turnEnded = false :=
    rfl
  unfold SetsOut Progress.pursuit
  rw [hopen, if_neg Bool.false_ne_true, hx]
  change (((Except.toOption (Rules.pursuit.carryOut _ _ x)).map _).getD default) = _
  rw [hp]
  rfl

/-- After a march the turn is closed without the second phase. -/
theorem Rules.inOrder_iff_pursuit :
    ∃ res q, Rules.pursuit.makeMove .pursuit (.named "march") = .ok res ∧
      Rules.pursuit.ComesTo .pursuit (.named "march") .pursuit ∧
      Progress.pursuit.state.suspended = [] ∧ Progress.pursuit.state.phase = "main" ∧
      Rules.pursuit.transition .pursuit = .ok q ∧
      ¬ Progress.pursuit.state.InOrder Rules.pursuit.definition q.state ∧
      Progress.pursuit.state.NextTurn Rules.pursuit.definition q.state ∧
      res.state.turn = 2 ∧ res.state.phase = "main" := by
  obtain ⟨res, hres⟩ : ∃ res, Rules.pursuit.makeMove .pursuit (.named "march") = .ok res :=
    exists_ok_of_isOk (by decide +kernel)
  obtain ⟨q, hq⟩ : ∃ q, Rules.pursuit.transition .pursuit = .ok q :=
    exists_ok_of_isOk (by decide +kernel)
  have hturn : (Rules.pursuit.makeMove .pursuit (.named "march")).toOption.map
      (fun res => (res.state.turn, res.state.phase)) = some (2, "main") := by decide +kernel
  rw [hres] at hturn
  obtain ⟨hturn, hphase⟩ := Prod.mk.inj (Option.some.inj hturn)
  have hdistinct : Rules.pursuit.definition.turn.Distinct := by
    unfold TurnStructure.Distinct
    decide +kernel
  have hnone : Progress.pursuit.state.suspended = [] := by decide +kernel
  have hmain : Progress.pursuit.state.phase = "main" := by decide +kernel
  have hfirst : Rules.pursuit.definition.turn.index? Progress.pursuit.state.phase = some 0 := by
    decide +kernel
  have hdisturbed : Rules.pursuit.Disturbed .pursuit := by
    obtain ⟨p', hp'⟩ : ∃ p', Rules.pursuit.leavePhase .pursuit = .ok p' :=
      exists_ok_of_isOk (by decide +kernel)
    have hsuspended : (Rules.pursuit.leavePhase .pursuit).toOption.map (·.state.suspended) =
        some ["main"] := by decide +kernel
    rw [hp'] at hsuspended
    have hmarch : p'.state.suspended = ["main"] := Option.some.inj hsuspended
    exact ⟨p', hp', by simp [hmarch, hnone]⟩
  obtain ⟨-, hsteps⟩ := Rules.inOrder_iff rfl hdistinct hres
  obtain ⟨-, -, horder⟩ := hsteps .pursuit q Rules.comesTo_pursuit hq
  obtain ⟨hiff, hnext⟩ := horder hnone 0 hfirst
  have hskips : ¬ Progress.pursuit.state.InOrder Rules.pursuit.definition q.state := by
    rw [hiff, not_not]
    exact ⟨hdisturbed, by decide⟩
  exact ⟨res, q, hres, Rules.comesTo_pursuit, hnone, hmain, hq, hskips, hnext hdisturbed, hturn,
    hphase⟩

end Tabletop
