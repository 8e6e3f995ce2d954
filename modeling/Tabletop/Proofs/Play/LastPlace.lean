import Tabletop.Play.Make
import Tabletop.Proofs.Play.Payment

/-!
# The last place has two names

A special activity comes in after some number of the stages of its host.  When it follows the last
one, it comes in after all of them, and a move may say either.  The two ways differ in how the time
is checked and in where the special activity is carried out: among the stages, or behind them.
Neither makes a difference, because what is carried out is the same list of deeds, and nothing else
in a move reads the time.

Main statement: `Rules.during_last_eq_after`, with a portage on which something is foraged.
-/

namespace Tabletop

namespace Rules

variable (r : Rules)

/-- What counts of a special activity is its plan and after how many stages of the host it comes. -/
theorem perform_eq_of_place {host : Plan} {c c' : Accompaniment Plan}
    (hspecial : c.special = c'.special)
    (hplace : c.place host.stages.length = c'.place host.stages.length)
    (htime : c.timing = .during →
      ∃ k, c.afterStage.map UInt64.toNat = some k ∧ k < host.stages.length)
    (htime' : c'.timing = .during →
      ∃ k, c'.afterStage.map UInt64.toNat = some k ∧ k < host.stages.length) (x : Performance) :
    r.perform host (some c) x = r.perform host (some c') x := by
  have hdeeds : host.deedsWith (some c) = host.deedsWith (some c') := by
    simp only [Plan.deedsWith, Plan.length_staging, hspecial, hplace]
  rw [perform_eq_runAll (by rintro _ ⟨⟩; exact htime),
    perform_eq_runAll (by rintro _ ⟨⟩; exact htime'),
    hdeeds]

/-- Plans a special activity, whatever its time. -/
def planAnytime (s : State) (host special : Move) : Check Plan :=
  match r.definition.action? special.action with
  | none => refuse .noSuchAction special.action
  | some a => Plan.make r.game s special a host.free true

variable {r} {s : State} {m special : Move}

/-- The time of a special activity is checked before it is planned, and then noted. -/
theorem planCompound_accompaniedBy {timing : Timing} {afterStage : Option UInt64} {stages : Nat}
    (htiming : Accompaniment.checkTiming { special, timing, afterStage } stages m.action = .ok ()) :
    r.planCompound s (m.accompaniedBy special timing afterStage) stages =
      (do return some { special := ← r.planAnytime s m special, timing, afterStage }) := by
  have hplan : r.planSpecial s (m.accompaniedBy special timing afterStage) stages
        { special, timing, afterStage } =
      (do return { special := ← r.planAnytime s m special, timing, afterStage }) := by
    refine bind_ok htiming ?_
    unfold planAnytime
    dsimp only
    cases r.definition.action? special.action <;> rfl
  change (do return some (← r.planSpecial s _ stages _)) = _
  rw [hplan, bind_assoc]
  rfl

/-- A move is planned alike whatever accompanies it. -/
theorem make_accompaniedBy (timing : Timing) (afterStage : Option UInt64) (a : Action) :
    Plan.make r.game s (m.accompaniedBy special timing afterStage) a m.free false =
      Plan.make r.game s m a m.free false :=
  Plan.make_congr (show (m.accompaniedBy special timing afterStage).params = m.params from rfl) _ _
    _ _ _

/-- After the last stage is after the host. -/
theorem perform_last {host plan : Plan} {k : UInt64} (hlast : k.toNat + 1 = host.stages.length)
    (x : Performance) :
    r.perform host (some { special := plan, timing := .during, afterStage := some k }) x =
      r.perform host (some { special := plan, timing := .after, afterStage := none }) x := by
  let during : Accompaniment Plan := { special := plan, timing := .during, afterStage := some k }
  let after : Accompaniment Plan := { special := plan, timing := .after, afterStage := none }
  have hspecial : during.special = after.special := rfl
  have hplace : during.place host.stages.length = after.place host.stages.length := hlast
  have htime : during.timing = .during →
      ∃ i, during.afterStage.map UInt64.toNat = some i ∧ i < host.stages.length :=
    fun _ => ⟨k.toNat, rfl, by omega⟩
  have htime' : after.timing = .during →
      ∃ i, after.afterStage.map UInt64.toNat = some i ∧ i < host.stages.length := nofun
  exact perform_eq_of_place r hspecial hplace htime htime' x

/-- A move resolves as an action in the same way by either name of the last place. -/
theorem resolveAs_last {a : Action} {k : UInt64}
    (hlast : ∀ host, Plan.make r.game s m a m.free false = .ok host →
      k.toNat + 1 = host.stages.length) :
    r.resolveAs s (m.accompaniedBy special .during (some k)) a =
      r.resolveAs s (m.accompaniedBy special .after none) a := by
  unfold resolveAs
  refine bind_congr fun _ => bind_congr fun grant => ?_
  change Plan.make r.game s (m.accompaniedBy ..) a m.free false >>= _ =
    Plan.make r.game s (m.accompaniedBy ..) a m.free false >>= _
  rw [make_accompaniedBy, make_accompaniedBy]
  cases hhost : Plan.make r.game s m a m.free false with
  | error stop => rfl
  | ok host =>
    have hplace := hlast host hhost
    have hduring : Accompaniment.checkTiming { special, timing := .during, afterStage := some k }
        host.stages.length m.action = .ok () :=
      if_pos (decide_eq_true (by omega))
    change r.planCompound .. >>= _ = r.planCompound .. >>= _
    rw [planCompound_accompaniedBy hduring, planCompound_accompaniedBy rfl]
    cases r.planAnytime s m special with
    | error stop => rfl
    | ok plan =>
      change r.perform host (some _) _ >>= _ = r.perform host (some _) _ >>= _
      rw [perform_last hplace]
      rfl

/-- A special activity after the last stage resolves as one at the end does. -/
theorem resolve_last {k : UInt64}
    (hlast : ∀ a host, r.definition.action? m.action = some a →
      Plan.make r.game s m a m.free false = .ok host → k.toNat + 1 = host.stages.length) :
    r.resolve s (m.accompaniedBy special .during (some k)) =
      r.resolve s (m.accompaniedBy special .after none) := by
  unfold resolve
  refine bind_congr fun outcome => bind_congr fun _ => ?_
  dsimp only [Move.accompaniedBy]
  cases ha : r.definition.action? m.action with
  | none => rfl
  | some a => exact resolveAs_last fun host => hlast a host ha

/-- Once a move has resolved, the time of its special activity is not read any more. -/
theorem commit_accompaniedBy (timing timing' : Timing) (afterStage afterStage' : Option UInt64)
    (mover : Seat) (x : Resolution) :
    r.commit (m.accompaniedBy special timing afterStage) mover x =
      r.commit (m.accompaniedBy special timing' afterStage') mover x := by
  have htake : r.takeActions (m.accompaniedBy special timing afterStage) x =
      r.takeActions (m.accompaniedBy special timing' afterStage') x := by
    unfold takeActions takeSpecial
    cases x.special <;> rfl
  have hgo : r.goOn (m.accompaniedBy special timing afterStage) =
      r.goOn (m.accompaniedBy special timing' afterStage') := by
    have hafter : ∀ t : State,
      t.afterMove r.definition (m.accompaniedBy special timing afterStage) =
        t.afterMove r.definition (m.accompaniedBy special timing' afterStage') := fun _ => rfl
    funext p
    rw [goOn, goOn, hafter]
  rw [commit, commit, htake, hgo]

/-- A special activity that follows the last stage of its host and one that comes after the host are
the same thing: the move resolves to the same, be it a resolution, a decision that is left open, a
refusal or a fault, and to make it comes to the same. -/
theorem during_last_eq_after (r : Rules) (s : State) (m special : Move) (k : UInt64)
    (hlast : ∀ a host, r.definition.action? m.action = some a →
      Plan.make r.game s m a m.free false = .ok host → k.toNat + 1 = host.stages.length) :
    r.resolve s (m.accompaniedBy special .during (some k)) =
        r.resolve s (m.accompaniedBy special .after none) ∧
      r.makeMove s (m.accompaniedBy special .during (some k)) =
        r.makeMove s (m.accompaniedBy special .after none) := by
  have hresolve : r.resolve s (m.accompaniedBy special .during (some k)) =
      r.resolve s (m.accompaniedBy special .after none) := resolve_last hlast
  refine ⟨hresolve, ?_⟩
  unfold makeMove
  rw [hresolve]
  cases r.resolve s (m.accompaniedBy special .after none) with
  | error stop => cases stop <;> rfl
  | ok x =>
    dsimp only
    rw [commit_accompaniedBy .during .after]

end Rules

/-! ## A portage -/

/-- A game in which supplies are carried: one is loaded, and at the end there is twice as much.
Meanwhile one may forage. -/
def Definition.portage : Definition :=
  { Definition.minimal "portage" with
    globalVars := [.ofInt "supplies" 1 0 9]
    actions := [{ id := "carry" }, { id := "forage", effects := [.addGlobal "supplies" 1] }]
    pipelines := [
      { id := "carrying", action := "carry"
        stages := [
          { name := "load", effects := [.addGlobal "supplies" 1] },
          { name := "double"
            effects :=
              [.setGlobal "supplies" (.arith .mul (.globalVar "supplies") (.int 2))] }] }] }

/-- The rules of that game, under the usual limits. -/
def Rules.portage : Rules := { game := .ofDefinition .portage }

/-- Where two seats start that game. -/
def State.portage : State := (Rules.portage.game.start 2 0).toOption.getD default

/-- To carry, and to forage at some time. -/
def Move.portage (timing : Timing) (afterStage : Option UInt64) : Move :=
  (Move.named "carry").accompaniedBy (.named "forage") timing afterStage

/-- How many supplies there are when a move has been carried out. -/
def Move.supplies? (m : Move) : Option Int64 :=
  (Rules.portage.resolve .portage m).toOption.bind (fun x => x.session.state.globalVar? "supplies")

/-- What is foraged after the second of two stages comes to five supplies, as after all of them.
After the first it would have been doubled. -/
theorem Rules.during_last_eq_after_portage :
    (∀ a host, Rules.portage.definition.action? "carry" = some a →
      Plan.make Rules.portage.game .portage (.named "carry") a false false = .ok host →
        (1 : UInt64).toNat + 1 = host.stages.length) ∧
    Rules.portage.resolve .portage (.portage .during (some 1)) =
      Rules.portage.resolve .portage (.portage .after none) ∧
    Rules.portage.makeMove .portage (.portage .during (some 1)) =
      Rules.portage.makeMove .portage (.portage .after none) ∧
    (Move.portage .during (some 0)).supplies? = some 6 ∧
    (Move.portage .during (some 1)).supplies? = some 5 := by
  have hstages : (Rules.portage.definition.action? "carry").bind (fun a =>
      (Plan.make Rules.portage.game .portage (.named "carry") a false false).toOption.map
        (·.stages.length)) = some 2 := by decide +kernel
  have hlast : ∀ a host, Rules.portage.definition.action? "carry" = some a →
      Plan.make Rules.portage.game .portage (.named "carry") a false false = .ok host →
        (1 : UInt64).toNat + 1 = host.stages.length := by
    intro a host ha hhost
    rw [ha, Option.bind_some, hhost] at hstages
    exact (Option.some.inj hstages).symm
  obtain ⟨hresolve, hmake⟩ :=
    Rules.during_last_eq_after .portage .portage (.named "carry") (.named "forage") 1 hlast
  exact ⟨hlast, hresolve, hmake, by decide +kernel, by decide +kernel⟩

end Tabletop
