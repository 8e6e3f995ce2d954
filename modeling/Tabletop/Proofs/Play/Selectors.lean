import Tabletop.Proofs.Play.Answers
import Tabletop.Proofs.Play.Applicability

/-!
# Where selectors fail

A fault for a selector arises where the seats of an action are checked, and nowhere else: neither
telling whether the game is over, nor the checks of grants and special activities, nor conditions,
pipelines or effects come to one.  So a move that comes to such a fault has come to the plan for its
action or for that of its special activity, and failed there.

Main statement: `Rules.exists_plansFor`.
-/

namespace Tabletop

namespace Plan

variable {m : Move} {special : Bool} {a : Action}

/-- A plan comes to a fault for a selector exactly if the check of its seats does. -/
theorem make_eq_selector_iff {g : Game} {s : State} {free : Bool} {action : ActionId}
    {sel : SeatSelector} {cause : SelectorFault} :
    make g s m a free special = .error (.fault (.selector action sel cause)) ↔
      checkSeats a m special ⟨g, s, .ofParams m.params, s.active⟩ =
        .error (.fault (.selector action sel cause)) := by
  constructor
  · intro h
    rcases bind_eq_error h with hseats | ⟨executor, -, h⟩
    · exact hseats
    · exfalso
      have havailable : Fails (Stop.BlamesOnly fun _ => True) (checkAvailable a s) :=
        checkAvailable_fails s
      obtain ⟨⟨⟩, -, h⟩ := havailable.later h not_false
      obtain ⟨⟨⟩, -, h⟩ := (checkParams_fails (List.Subset.refl _)).later h not_false
      have hcondition : Fails (Fault.BlamesOnly fun _ => True) (holdsIn (.precondition a.id) a.pre
          { game := g, state := s, bindings := .ofParams m.params, actor := executor }) :=
        holdsIn_fails trivial a.pre _
      obtain ⟨holds, -, h⟩ := hcondition.check.later h not_false
      obtain ⟨⟨⟩, -, h⟩ := ensure_later h
      obtain ⟨chosen, -, h⟩ := (checkPipeline_fails free).later h not_false
      cases h
  · intro h
    unfold make
    simp only [h]
    rfl

end Plan

namespace Rules

variable (r : Rules) (s : State) (m : Move)

/-- Screening a move comes to no fault for a selector. -/
theorem screen_fails : Fails (Stop.BlamesOnly fun _ => True) (r.screen s m) := by
  apply ((r.game.outcome?_fails s).check.relabel (fun _ _ => trivial)).bind
  intro outcome _
  apply Fails.ensureBind
  cases r.definition.action? m.action with
  | none => trivial
  | some a =>
    apply ((r.checkCompound_fails s m).relabel (fun _ _ => trivial)).bind
    intro _ _
    exact ((r.checkGrant_fails s m a).relabel (fun _ _ => trivial)).bind (fun _ _ => .pure)

/-- To resolve a move, an action is planned with the params of a move: the move itself, or its
special activity once the host has been planned. -/
inductive PlansFor : Action → Move → Bool → Prop where
  | host {a : Action} {grant : Option String} (hscreen : r.screen s m = .ok (a, grant)) :
      PlansFor a m false
  | special {a host : Action} {grant : Option String} {plan : Plan} {c : Accompaniment Move}
      (hscreen : r.screen s m = .ok (host, grant))
      (hhost : Plan.make r.game s m host m.free false = .ok plan) (hc : m.compound = some c)
      (htiming : c.checkTiming plan.stages.length m.action = .ok ())
      (ha : r.definition.action? c.special.action = some a) : PlansFor a c.special true

variable {r s m}

/-- An action that is planned has been declared. -/
theorem PlansFor.declared {a : Action} {n : Move} {special : Bool}
    (h : r.PlansFor s m a n special) :
    r.definition.action? n.action = some a := by
  cases h with
  | host hscreen => exact (r.screen_asks s m).of_ok hscreen
  | special _ _ _ _ ha => exact ha

/-- What stops the plan of a special activity that comes at a right time. -/
theorem planCompound_eq_error {stages : Nat} {c : Accompaniment Move} {a : Action} {e : Stop}
    (hc : m.compound = some c) (htiming : c.checkTiming stages m.action = .ok ())
    (ha : r.definition.action? c.special.action = some a)
    (he : Plan.make r.game s c.special a m.free true = .error e) :
    r.planCompound s m stages = .error e := by
  unfold planCompound planSpecial
  rw [hc]
  dsimp only
  rw [htiming, ha]
  dsimp only
  rw [he]
  rfl

/-- What stops a plan stops the move. -/
theorem PlansFor.resolve_error {a : Action} {n : Move} {special : Bool}
    (h : r.PlansFor s m a n special) {e : Stop}
    (he : Plan.make r.game s n a m.free special = .error e) : r.resolve s m = .error e := by
  have hplan : r.plan s m = .error e := by
    cases h with
    | host hscreen =>
      refine bind_ok hscreen ?_
      dsimp only
      rw [he]
      rfl
    | special hscreen hhost hc htiming ha =>
      refine bind_ok hscreen (bind_ok hhost ?_)
      rw [planCompound_eq_error hc htiming ha he]
      rfl
  rw [r.resolve_eq, hplan]
  rfl

/-- A move that is resolved has been planned with all that was to be planned. -/
theorem PlansFor.exists_plan {a : Action} {n : Move} {special : Bool}
    (h : r.PlansFor s m a n special) {t : Resolution} (ht : r.resolve s m = .ok t) :
    ∃ plan, Plan.make r.game s n a m.free special = .ok plan := by
  cases hmake : Plan.make r.game s n a m.free special with
  | ok plan => exact ⟨plan, rfl⟩
  | error e => cases (h.resolve_error hmake).symm.trans ht

/-- A move that comes to a fault for a selector has come to a plan, which came to that fault. -/
theorem exists_plansFor {action : ActionId} {sel : SeatSelector} {cause : SelectorFault}
    (h : r.resolve s m = .error (.fault (.selector action sel cause))) :
    ∃ a n special, r.PlansFor s m a n special ∧
      Plan.make r.game s n a m.free special = .error (.fault (.selector action sel cause)) := by
  rw [r.resolve_eq] at h
  rcases bind_eq_error h with hplan | ⟨t, -, hexecute⟩
  · obtain ⟨⟨a, grant⟩, hscreen, hplan⟩ := (r.screen_fails s m).later hplan not_false
    rcases bind_eq_error hplan with hhost | ⟨plan, hhost, hplan⟩
    · exact ⟨a, m, false, .host hscreen, hhost⟩
    · rcases bind_eq_error hplan with hspecial | ⟨special, -, hplan⟩
      · obtain ⟨c, b, hc, htiming, hb, hmake⟩ := planCompound_eq_fault hspecial
        exact ⟨b, c.special, true, .special hscreen hhost hc htiming hb, hmake⟩
      · cases hplan
  · rcases bind_eq_error hexecute with hperform | ⟨x, -, hexecute⟩
    · have hblamed : Stop.BlamesOnly (fun _ => True) (.fault (.selector action sel cause)) :=
        (r.perform_fails _ _ _).of_error hperform
      exact absurd hblamed not_false
    · cases hexecute

end Rules

end Tabletop
