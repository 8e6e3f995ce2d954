import Tabletop.Proofs.Expr.Alike
import Tabletop.Proofs.Play.Phases
import Tabletop.Proofs.TurnOrder.ActiveSeat

/-!
# What becomes of a verdict

When a move has been carried out and the triggers have reacted, the game may be over.  But nobody
looks until the move has been written down in the turn order, and if that ends the turn, until the
turn has been closed and the next one has started, with all that triggers and lasting effects do
then.  So a verdict can be lost on the way, and the game goes on.

In round robin and in a fixed order nothing happens to the state in between.  Where the turn does
not end and the same seat stays active, only the books of the turn order change, and a verdict does
not depend on these.

Main statement: `Rules.verdict_of_makeMove`, with a crown that is lost at dusk.
-/

namespace Tabletop

/-! ## A move that is written down -/

namespace State

variable {s t : State} {d : Definition}

/-- Bringing the active seat in line changes nothing else. -/
theorem exists_syncActive (s : State) (d : Definition) :
    ∃ active, s.syncActive d = { s with active } := by
  unfold syncActive
  split
  · exact ⟨_, rfl⟩
  · exact ⟨s.active, rfl⟩

/-- Unless it ends the turn, a move that is written down changes the books of the turn order and the
active seat only. -/
theorem exists_afterMove {m : Move} (h : (s.afterMove d m).1.turnEnded = false) :
    ∃ order active, (s.afterMove d m).2 = { s with order, active } := by
  have hsynced : ∀ order, ∃ active, { s with order }.syncActive d = { s with order, active } :=
    fun order => exists_syncActive { s with order } d
  unfold afterMove at h ⊢
  split
  · exact ⟨_, hsynced _⟩
  · rename_i rules card hrules hcard
    rw [hrules, hcard] at h
    dsimp only at h
    cases hover : (card.afterMove rules s.active m).isOver rules with
    | true =>
      rw [settleCard_of_isOver rfl hover] at h
      cases h
    | false =>
      rw [settleCard_of_not_isOver rfl hover]
      exact ⟨_, hsynced _⟩
  · exact ⟨_, hsynced s.order⟩

/-- A move that ends no turn and leaves the active seat shows the same state to an evaluation. -/
theorem alike_afterMove {m : Move} (hended : (s.afterMove d m).1.turnEnded = false)
    (hactive : (s.afterMove d m).2.active = s.active) : s.Alike (s.afterMove d m).2 := by
  obtain ⟨order, active, hafter⟩ := exists_afterMove hended
  rw [hafter] at hactive ⊢
  exact ⟨rfl, rfl, rfl, rfl, rfl, rfl, hactive, rfl⟩

end State

/-! ## A verdict -/

namespace Rules

variable {r : Rules} {s : State} {m : Move} {x : Resolution} {p p' : Progress}

/-- Where the game is over, it goes no further. -/
theorem Passes.eq_of_outcome {k : Nat} {q : Progress} {o : Outcome} (h : r.Passes k p q)
    (ho : r.game.outcome? p.state = .ok (some o)) : q = p := by
  cases h with
  | none => rfl
  | next hundecided =>
    obtain ⟨found, hfound, hrest⟩ := bind_eq_ok hundecided
    cases hfound.symm.trans ho
    cases hrest

/-- If the move has not ended the turn and the same seat is active when the game sets out, a verdict
on what the move led to is one on where the game sets out. -/
theorem SetsOut.outcome (h : r.SetsOut m p p')
    (hended : (p.state.afterMove r.definition m).1.turnEnded = false)
    (hactive : p'.state.active = p.state.active) :
    r.game.outcome? p'.state = r.game.outcome? p.state := by
  rcases setsOut_iff.1 h with ⟨htrue, -⟩ | ⟨-, rfl⟩
  · rw [hended] at htrue
    cases htrue
  · exact r.game.outcome?_alike (State.alike_afterMove hended hactive)

/-- Suppose that the game is over when a move has been carried out and the triggers have reacted.
If it is still over when it sets out for the next decision, it stops there.  If it is not over in
the end, it was not when it set out, and by then the turn had ended or another seat had become
active.  If the turn has not ended and the same seat is active, the verdict stands; and if seats
simply take turns, one by one or in a fixed order, the game stops as it was when the move had been
carried out. -/
theorem verdict_of_makeMove {res : MoveResult} (h : r.makeMove s m = .ok res) :
    ∃ x p p', r.resolve s m = .ok x ∧ r.carryOut m s.active x = .ok p ∧ r.SetsOut m p p' ∧
      ∀ o, r.game.outcome? p.state = .ok (some o) →
        (∀ o', r.game.outcome? p'.state = .ok (some o') →
          res.state = p'.state.stamp ∧ r.game.outcome? res.state = .ok (some o')) ∧
        (r.game.outcome? res.state = .ok none →
          (∀ o', r.game.outcome? p'.state ≠ .ok (some o')) ∧
            ((p.state.afterMove r.definition m).1.turnEnded = true ∨
              p'.state.active ≠ p.state.active)) ∧
        ((p.state.afterMove r.definition m).1.turnEnded = false →
          p'.state.active = p.state.active →
            res.state = p'.state.stamp ∧ r.game.outcome? res.state = .ok (some o)) ∧
        (s.InLine r.definition.order → r.definition.order ≠ .simultaneous →
          res.state = p.state.stamp ∧ r.game.outcome? res.state = .ok (some o)) := by
  obtain ⟨q, ⟨x, p, p', k, hx, hcarried, hout, hpasses⟩, -, hres⟩ := comesTo_of_makeMove h
  have hstops : ∀ o', r.game.outcome? p'.state = .ok (some o') →
      res.state = p'.state.stamp ∧ r.game.outcome? res.state = .ok (some o') := by
    intro o' ho'
    obtain rfl := hpasses.eq_of_outcome ho'
    rw [hres]
    exact ⟨rfl, Game.outcome?_stamp ho'⟩
  refine ⟨x, p, p', hx, hcarried, hout, fun o ho => ?_⟩
  have hstands : (p.state.afterMove r.definition m).1.turnEnded = false →
      p'.state.active = p.state.active → r.game.outcome? p'.state = .ok (some o) :=
    fun hended hactive => (hout.outcome hended hactive).trans ho
  refine ⟨hstops, fun hgoes => ?_, fun hended hactive => hstops o (hstands hended hactive),
    fun hline hsubmits => ?_⟩
  · have hnot : ∀ o', r.game.outcome? p'.state ≠ .ok (some o') := by
      intro o' ho'
      have hover := (hstops o' ho').2
      rw [hgoes] at hover
      cases hover
    refine ⟨hnot, ?_⟩
    by_contra hsame
    rw [not_or, Bool.not_eq_true, not_not] at hsame
    exact hnot o (hstands hsame.1 hsame.2)
  · have hafter := (inLine_carryOut hline hx hcarried).afterMove_eq hsubmits m
    unfold SetsOut at hout
    rw [hafter] at hout
    have hsame : p' = p := hout
    rw [hsame] at hstops
    exact hstops o ho

end Rules

/-! ## A crown -/

/-- A game by cards in which a seat that is crowned reigns, until dusk takes the crown. -/
def Definition.crown : Definition :=
  { Definition.minimal "crown" with
    globalVars := [.ofInt "crowned" 0 0 1]
    actions := [{ id := "crown", effects := [.setGlobal "crowned" (.int 1)] }]
    triggers := [{
      id := "dusk", pattern := .turnEnd, effects := [.setGlobal "crowned" (.int 0)] }]
    order := .cardDriven {
      seats := [⟨0⟩, ⟨1⟩]
      maxActing := 1
      victory := some { checkpoints := [{
        id := "reign", seat := some ⟨0⟩, timing := .during
        when := .eq (.globalVar "crowned") (.int 1) }] } } }

/-- The rules of that game, under the usual limits. -/
def Rules.crown : Rules := { game := .ofDefinition .crown }

/-- Where two seats start that game. -/
def State.crown : State := (Rules.crown.game.start 2 0).toOption.getD default

/-- The crowning as it is resolved. -/
def Resolution.crown : Resolution :=
  (Rules.crown.resolve .crown (.named "crown")).toOption.getD default

/-- The progress when it has been carried out. -/
def Progress.crown : Progress :=
  (Rules.crown.carryOut (.named "crown") State.crown.active .crown).toOption.getD default

/-- The first seat reigns once it has been crowned.  But that ends the card, and by the time anybody
looks dusk has taken the crown. -/
theorem Rules.verdict_of_makeMove_crown :
    ∃ p' res, Rules.crown.makeMove .crown (.named "crown") = .ok res ∧
      Rules.crown.resolve .crown (.named "crown") = .ok .crown ∧
      Rules.crown.carryOut (.named "crown") State.crown.active .crown = .ok .crown ∧
      Rules.crown.SetsOut (.named "crown") .crown p' ∧
      Rules.crown.game.outcome? Progress.crown.state =
        .ok (some (.win ⟨0⟩ (some { checkpoint := "reign", timing := .during, ranking := [] }))) ∧
      Rules.crown.game.outcome? res.state = .ok none ∧
      (∀ o, Rules.crown.game.outcome? p'.state ≠ .ok (some o)) ∧
      ((Progress.crown.state.afterMove Rules.crown.definition (.named "crown")).1.turnEnded = true ∨
        p'.state.active ≠ Progress.crown.state.active) := by
  have hmove := eq_ok_getD (a := Rules.crown.makeMove .crown (.named "crown")) (by decide +kernel)
  have hresolved : Rules.crown.resolve .crown (.named "crown") = .ok .crown :=
    eq_ok_getD (by decide +kernel)
  have hreached : Rules.crown.carryOut (.named "crown") State.crown.active .crown = .ok .crown :=
    eq_ok_getD (by decide +kernel)
  have hreigns : Rules.crown.game.outcome? Progress.crown.state =
      .ok (some (.win ⟨0⟩ (some { checkpoint := "reign", timing := .during, ranking := [] }))) :=
    eq_ok_of_toOption (by decide +kernel)
  have hgoes : Rules.crown.game.outcome?
      ((Rules.crown.makeMove .crown (.named "crown")).toOption.getD default).state = .ok none :=
    eq_ok_of_toOption (by decide +kernel)
  obtain ⟨x, p, p', hx, hcarried, hout, hverdict⟩ := Rules.verdict_of_makeMove hmove
  obtain rfl : Resolution.crown = x := Except.ok.inj (hresolved.symm.trans hx)
  obtain rfl : Progress.crown = p := Except.ok.inj (hreached.symm.trans hcarried)
  obtain ⟨-, hlost, -⟩ := hverdict _ hreigns
  obtain ⟨hnot, hwhy⟩ := hlost hgoes
  exact ⟨p', _, hmove, hresolved, hreached, hout, hreigns, hgoes, hnot, hwhy⟩

end Tabletop
