import Tabletop.Proofs.Play.Answers
import Tabletop.Proofs.Play.DecisionPoint

/-!
# Leeway

Limits end a call that needs more work than they allow; they never steer it.  What a call comes to
under some limits, it comes to under limits that give more leeway, whether or not these ask for a
trace.

A list of moves is the delicate case, since the number of levels that are explored goes by the
number of operations, and moves are listed at every transition to see whether there is something to
decide.  But no branch is as long as the levels that are explored, so that further levels add no
move.

Main statement: `Game.same_with_leeway`.
-/

namespace Tabletop

namespace Rules

variable {w : Widening} (r : Rules)

/-! ## Lists of moves -/

/-- With more leeway, at least as many levels are explored. -/
theorem depthOf_le (w : Widening) (m : Move) : r.depthOf m ≤ (w.rules r).depthOf m := by
  rw [depthOf_eq, depthOf_eq]
  exact Nat.succ_le_succ (Nat.add_le_add_left (w.maxOps_le _) _)

/-- Exploring moves one after the other under more leeway lists the same. -/
theorem exploreAll_stays (hw : w.LimitsOnly) (s : State) (cap : Nat) :
    ∀ (ms : List Move) (found : Array Move),
      Stays (r.exploreAll s cap ms found) ((w.rules r).exploreAll s cap ms found)
  | [], found => .refl _
  | m :: ms, found => by
    have hlevels : r.explore s cap ((w.rules r).depthOf m) m found =
        r.explore s cap (r.depthOf m) m found :=
      explore_fuel m (r.depthOf_le w m) found
    rw [exploreAll, exploreAll, ← hlevels]
    exact (r.explore_stays hw s cap _ m found).bind (exploreAll_stays hw s cap ms)

/-- The moves that are listed are listed with more leeway, and no others are. -/
theorem legalMoves_stays (hw : w.LimitsOnly) (s : State) (cap : Nat) (compounds : Bool) :
    Stays (r.legalMoves s cap compounds) ((w.rules r).legalMoves s cap compounds) := by
  refine Stays.bind (.refl _) (fun outcome => .ite (fun _ => .refl _) (fun _ => ?_))
  refine (r.exploreAll_stays hw s cap _ #[]).bind (fun found => ?_)
  refine .ite (fun _ => ?_) (fun _ => .refl _)
  exact (r.exploreAll_stays hw s cap _ found).bind (fun _ => .refl _)

/-- More leeway leaves what a decision is, since it is told by exploring up to the first move. -/
theorem atDecision_stays (hw : w.LimitsOnly) (s : State) :
    Stays (r.atDecision s) ((w.rules r).atDecision s) := by
  refine Stays.bind (.refl _) (fun outcome => .ite (fun _ => .refl _) (fun _ => ?_))
  exact (r.legalMoves_stays hw s 1 false).bind (fun _ => .refl _)

end Rules

/-! ## Calls -/

/-- Under limits that give more leeway, with or without a trace, a move that is made leads to the
same state with the same firings and warnings, a move stands where it stood, and the same moves are
listed.  So limits change what a call comes to only by making it fail. -/
theorem Game.same_with_leeway (g : Game) (s : State) {o o' : Limits} (h : o.Within o') :
    (∀ m res, Rules.makeMove { game := g, limits := o } s m = .ok res →
      ∃ res', Rules.makeMove { game := g, limits := o' } s m = .ok res' ∧
        res'.state = res.state ∧ res'.firings = res.firings ∧ res'.warnings = res.warnings) ∧
    (∀ m standing, Rules.standing { game := g, limits := o } s m = .ok standing →
      Rules.standing { game := g, limits := o' } s m = .ok standing) ∧
    (∀ maxMoves compounds found,
      g.legalMoves s { maxMoves, compounds, limits := o } = .ok found →
        g.legalMoves s { maxMoves, compounds, limits := o' } = .ok found) := by
  have hw := Widening.between_limitsOnly h
  have hrules := Widening.rules_between (g := g) h
  refine ⟨fun m res hres => ?_, fun m standing hstanding => ?_, fun maxMoves compounds found hfound
    => ?_⟩
  · -- Moves are listed on the way to the next decision too.
    have hdecision := Rules.atDecision_stays { game := g, limits := o } hw
    obtain ⟨trace, hmade⟩ := Rules.makeMove_paired _ hw hdecision hres
    rw [hrules] at hmade
    exact ⟨_, hmade, rfl, rfl, rfl⟩
  · have hstays := Rules.standing_stays { game := g, limits := o } hw s m
    rw [hrules] at hstays
    exact hstays.eq_ok hstanding
  · have hstays := Rules.legalMoves_stays { game := g, limits := o } hw s maxMoves compounds
    rw [hrules] at hstays
    exact hstays.eq_ok hfound

/-- Limits under which effects may do as much as the mint needs, and no more. -/
def Limits.frugal : Limits := { maxOps := 2, maxTransitions := 0, tracing := true }

/-- Striking a coin under frugal limits comes to the same state, firings and warnings as under the
usual ones. -/
theorem Game.same_with_leeway_mint :
    ∃ res res', Rules.makeMove { game := Rules.mint.game, limits := .frugal } .mint
        (.named "strike") = .ok res ∧
      Rules.mint.makeMove .mint (.named "strike") = .ok res' ∧ res'.state = res.state ∧
        res'.firings = res.firings ∧ res'.warnings = res.warnings := by
  obtain ⟨res, hres⟩ : ∃ res, Rules.makeMove { game := Rules.mint.game, limits := .frugal } .mint
      (.named "strike") = .ok res := exists_ok_of_isOk (by decide +kernel)
  have hwithin : Limits.frugal.Within {} := ⟨by decide, by decide⟩
  obtain ⟨res', hres', hsame⟩ := (Rules.mint.game.same_with_leeway .mint hwithin).1 _ res hres
  exact ⟨res, res', hres, hres', hsame⟩

end Tabletop
