import Tabletop.Play.Outcome
import Tabletop.Proofs.Paired.Widening

/-!
# Outcomes, side by side

How a game ends is read off its state without any name in scope, so it is the same whatever the
fingerprint says.

Main statement: `Game.outcome?_stays`.
-/

namespace Tabletop

section

variable {w : Widening} {v : View} {b' : Bindings}

/-- The scores of seats do not depend on fingerprints. -/
theorem Ending.scores_stays (hw : w.params = ∅) (value : Expr) (b' : Bindings) :
    ∀ seats, Stays (scores value v seats) (scores value (w.view v b') seats)
  | [] => .refl _
  | seat :: seats => by
    have hseat := value.evalInt_stays (v := { v.ofSeat seat with actor := seat })
      (Widening.below_self hw _)
    exact hseat.bind (fun _ => (scores_stays hw value b' seats).bind (fun _ => .refl _))

/-- What an ending declares does not depend on fingerprints. -/
theorem Ending.outcome_stays (hw : w.params = ∅) (e : Ending) (h : w.Below v.bindings b') :
    Stays (e.outcome v) (e.outcome (w.view v b')) := by
  cases e with
  | draw => exact .refl _
  | lossAll => exact .refl _
  | win seat => exact (seat.resolve_stays h).bind (fun _ => .refl _)
  | score value ascending => exact (scores_stays hw value b' _).bind (fun _ => .refl _)

/-- Which end condition holds first does not depend on fingerprints. -/
theorem EndCondition.firstOutcome?_stays (hw : w.params = ∅) (h : w.Below v.bindings b') :
    ∀ (es : List EndCondition) (i : Nat),
      Stays (firstOutcome? v i es) (firstOutcome? (w.view v b') i es)
  | [], _ => .refl _
  | e :: es, i => by
    refine Stays.bind (.inPredicate _ (e.when.eval_stays h))
      (fun _ => .ite (fun _ => ?_) (fun _ => ?_))
    · exact (e.result.outcome_stays hw h).bind (fun _ => .refl _)
    · exact firstOutcome?_stays hw h es (i + 1)

/-- The margins of a victory do not depend on fingerprints. -/
theorem Victory.marginScores_stays (hw : w.params = ∅) (b' : Bindings) :
    ∀ ms, Stays (marginScores v ms) (marginScores (w.view v b') ms)
  | [] => .refl _
  | m :: ms => by
    have hmargin := m.value.evalInt_stays (v := v.ofSeat m.seat) (Widening.below_self hw _)
    exact (hmargin.inPredicate _).bind
      (fun _ => (marginScores_stays hw b' ms).bind (fun _ => .refl _))

/-- Which checkpoint holds first does not depend on fingerprints. -/
theorem Victory.firstOutcome?_stays (hw : w.params = ∅) (y : Victory)
    (h : w.Below v.bindings b') :
    ∀ cs, Stays (y.firstOutcome? v cs) (y.firstOutcome? (w.view v b') cs)
  | [] => .refl _
  | c :: cs => by
    refine Stays.bind (.inPredicate _ (c.when.eval_stays h))
      (fun _ => .ite (fun _ => ?_) (fun _ => ?_))
    · exact (marginScores_stays hw b' _).bind (fun _ => .refl _)
    · exact firstOutcome?_stays hw y h cs

end

/-- A game has the outcome that it had. -/
theorem Game.outcome?_stays (w : Widening) (g : Game) (s : State) :
    Stays (g.outcome? s) (g.outcome? (w.state s)) := by
  have hbelow := w.bare_below_self (View.ofState g s).bindings
  refine Stays.bind (EndCondition.firstOutcome?_stays rfl hbelow _ 0) (fun first => ?_)
  cases first with
  | some outcome => exact .refl _
  | none =>
    dsimp only
    split
    · exact Victory.firstOutcome?_stays rfl _ hbelow _
    · exact .refl _

end Tabletop
