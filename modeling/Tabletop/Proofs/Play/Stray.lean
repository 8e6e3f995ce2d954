import Tabletop.Play.Make
import Tabletop.Proofs.Play.Cost
import Tabletop.Proofs.Play.DecisionPoint

/-!
# Stray selections

A move may carry selections that nothing asks for.  They are in scope wherever the selections of the
move are: in its checks, in its effects and in the setups of the lasting effects of its action.
There they come in below all other names, so that no look-up that has found something finds anything
else; and a move that can be made has looked up nothing in vain.  So what it leads to, it leads to
with any further selections as well.

Main statement: `Rules.same_with_stray`.
-/

namespace Tabletop

/-- Effects that run do the same where more names are in scope. -/
theorem runEffects_below {setting : Setting} {root : String} {b b' : Bindings}
    (h : (Widening.adding b').Below b b') {effects : List Effect} {s : State} {x : Session}
    (hx : runEffects setting root b effects s = .ok x) :
    runEffects setting root b' effects s = .ok x := by
  have hrun := Session.run_paired setting root effects h (Widening.inStep_refl { state := s })
  have hpaired : Paired (.silent Fault) (Widening.adding b').InStep
      (runEffects setting root b effects s) (runEffects setting root b' effects s) :=
    hrun.mapError (fun _ _ => trivial)
  obtain ⟨y, hy, hsame⟩ := hpaired.of_ok hx
  rwa [hsame.eq] at hy

namespace Rules

variable (r : Rules)

/-- Lasting effects that become active do so where more names are in scope. -/
theorem activateLasting_below {a : Action} {executor : Seat} {b b' : Bindings}
    (h : (Widening.adding b').Below b b') :
    ∀ {ls : List LastingEffect} {p : Progress} {y : Progress × List Event},
      r.activateLasting a executor b ls p = .ok y → r.activateLasting a executor b' ls p = .ok y
  | [], _, _, hy => hy
  | l :: ls, p, y, hy => by
    obtain ⟨x, hx, hy⟩ := bind_eq_ok hy
    obtain ⟨z, hz, hy⟩ := bind_eq_ok hy
    have hsetup := runEffects_below h (attempt_eq_ok hx)
    exact bind_ok (congrArg _ hsetup) (bind_ok (activateLasting_below h hz) hy)

/-- An action that is taken is taken with more selections. -/
theorem take_within {a : Action} {executor : Seat} {params params' : Dict Selection}
    (h : params.Within params') {p : Progress} {y : Progress × List Event}
    (hy : r.take a executor params p = .ok y) : r.take a executor params' p = .ok y := by
  obtain ⟨z, hz, hy⟩ := bind_eq_ok hy
  exact bind_ok (r.activateLasting_below (Widening.below_ofParams h) hz) hy

variable {r} {s : State} {m : Move} {params : Dict Selection}

/-- A move without a special activity that resolves comes to the very same with more selections. -/
theorem resolve_within (hplain : m.compound = none) (h : m.params.Within params) {x : Resolution}
    (hx : r.resolve s m = .ok x) : r.resolve s { m with params } = .ok x := by
  have hmoves : (Widening.adding (.ofParams params)).Moves m { m with params } :=
    Widening.moves_of_within (n := { m with params }) hplain rfl h
  obtain ⟨y, hy, hsame⟩ := (r.resolve_paired s hmoves).of_ok hx
  rwa [hsame.eq] at hy

/-- The actions of a move without a special activity are taken alike with more selections. -/
theorem takeActions_within (hplain : m.compound = none) (h : m.params.Within params)
    {x : Resolution} {y : Progress × List Event} (hy : r.takeActions m x = .ok y) :
    r.takeActions { m with params } x = .ok y := by
  have hspecial (p : Progress) : r.takeSpecial { m with params } x p = r.takeSpecial m x p := by
    unfold takeSpecial
    rw [hplain]
  obtain ⟨⟨p, events⟩, hhost, hy⟩ := bind_eq_ok hy
  refine bind_ok (r.take_within h hhost) ?_
  dsimp only
  rw [hspecial]
  exact hy

/-- Selections that a move does not need change nothing: with any others besides its own, a move
without a special activity resolves to the same, and leads to the same state, firings, warnings and
trace. -/
theorem same_with_stray (r : Rules) (s : State) {m : Move} (hplain : m.compound = none)
    {params : Dict Selection} (h : m.params.Within params) {x : Resolution}
    (hx : r.resolve s m = .ok x) :
    r.resolve s { m with params } = .ok x ∧
      ∀ res, r.makeMove s m = .ok res → r.makeMove s { m with params } = .ok res := by
  have hx' := resolve_within hplain h hx
  refine ⟨hx', fun res hres => ?_⟩
  obtain ⟨y, p, hy, hcommit, rfl⟩ := makeMove_eq_ok hres
  cases hx.symm.trans hy
  obtain ⟨⟨p', events⟩, htaken, hcommit⟩ := bind_eq_ok hcommit
  -- What follows on the actions goes by the action and by whether the move is a free operation.
  have hcommit' : r.commit { m with params } s.active x = .ok p :=
    bind_ok (takeActions_within hplain h htaken) hcommit
  unfold makeMove
  rw [hx']
  dsimp only
  rw [hcommit']

end Rules

/-- Melts the first coin of the mint. -/
def Move.melt : Move := (Move.named "melt").select "coin" (.one (.str "coin#0"))

/-- A polish that nobody asks for leaves no mark on what is melted. -/
theorem Rules.same_with_stray_mint :
    ∃ x res, Rules.mint.resolve .mint .melt = .ok x ∧ Rules.mint.makeMove .mint .melt = .ok res ∧
      Rules.mint.resolve .mint (Move.melt.select "polish" (.one (.int 1))) = .ok x ∧
      Rules.mint.makeMove .mint (Move.melt.select "polish" (.one (.int 1))) = .ok res := by
  obtain ⟨x, hx⟩ : ∃ x, Rules.mint.resolve .mint .melt = .ok x :=
    exists_ok_of_isOk (by decide +kernel)
  obtain ⟨res, hres⟩ : ∃ res, Rules.mint.makeMove .mint .melt = .ok res :=
    exists_ok_of_isOk (by decide +kernel)
  have hwithin : Move.melt.params.Within (Move.melt.params.insert "polish" (.one (.int 1))) :=
    .insert rfl _
  obtain ⟨hresolve, hmake⟩ := Rules.same_with_stray .mint .mint rfl hwithin hx
  exact ⟨x, res, hx, hres, hresolve, hmake res hres⟩

end Tabletop
