import Tabletop.Proofs.Effect.Frame
import Tabletop.Proofs.Play.DecisionPoint

/-!
# Where a game starts

The start runs the setup effects and goes no further.  After a move the game goes on until there is
something to decide; the start leaves it in the first phase of the first turn, whether or not
anything can be done there.  So a game is stuck from the start exactly if nothing can be done in the
phase in which the setup leaves it, although some transitions would lead to where something can.

Main statement: `Game.start_stuck_iff`.
-/

namespace Tabletop

/-! ## The start -/

namespace State

/-- Synchronising the active seat leaves the phase. -/
theorem syncActive_phase (s : State) (d : Definition) : (s.syncActive d).phase = s.phase := by
  unfold syncActive
  split <;> rfl

/-- Synchronising the active seat leaves the suspended phases. -/
theorem syncActive_suspended (s : State) (d : Definition) :
    (s.syncActive d).suspended = s.suspended := by
  unfold syncActive
  split <;> rfl

/-- Synchronising the active seat leaves the number of the turn. -/
theorem syncActive_turn (s : State) (d : Definition) : (s.syncActive d).turn = s.turn := by
  unfold syncActive
  split <;> rfl

end State

namespace Game

variable {g : Game} {count : Nat} {seed : UInt64} {s : State}

/-- How a game has started: out of a blank state by its setup effects, if it has any. -/
theorem start_eq_ok (h : g.start count seed = .ok s) :
    ∃ blank, g.definition.blank count seed = .ok blank ∧
      ((s = blank.stamp ∧ g.definition.setup = []) ∨
        ∃ x : Session, Reaches (({ game := g } : Rules).strict blank.active .setup none)
          { state := blank } x ∧ s = (x.state.syncActive g.definition).stamp) := by
  obtain ⟨blank, hblank, h⟩ := bind_eq_ok h
  obtain ⟨t, hsetup, h⟩ := bind_eq_ok h
  cases h
  refine ⟨blank, hblank, ?_⟩
  unfold setUp at hsetup
  split at hsetup
  · rename_i hempty
    cases hsetup
    exact .inl ⟨rfl, List.isEmpty_iff.1 hempty⟩
  · obtain ⟨x, hx, hsetup⟩ := bind_eq_ok hsetup
    cases hsetup
    exact .inr ⟨x, reaches_of_runEffects hx, rfl⟩

/-- A game starts in the first turn, and in the first phase unless its setup interrupts that. -/
theorem first_of_start (h : g.start count seed = .ok s) :
    s.turn = 1 ∧ g.definition.firstPhase? = some s.basePhase := by
  obtain ⟨blank, hblank, hstart⟩ := start_eq_ok h
  obtain ⟨hturn, hphase⟩ : blank.turn = 1 ∧ g.definition.firstPhase? = some blank.basePhase := by
    unfold Definition.blank at hblank
    split at hblank
    · cases hblank
    · obtain ⟨phase, hphase, hblank⟩ := bind_eq_ok hblank
      cases hblank
      exact ⟨rfl, orFault_eq_ok hphase⟩
  rcases hstart with ⟨rfl, -⟩ | ⟨x, hreaches, rfl⟩
  · exact ⟨hturn, hphase⟩
  · have hkept := hreaches.kept
    constructor
    · exact (x.state.syncActive_turn _).trans (hkept.turn.trans hturn)
    · have hbase : (x.state.syncActive g.definition).stamp.basePhase = x.state.basePhase := by
        unfold State.basePhase
        exact congrArg₂ (fun suspended phase => suspended.head?.getD phase)
          (x.state.syncActive_suspended _) (x.state.syncActive_phase _)
      rw [hbase, hkept.basePhase]
      exact hphase

/-- A game is stuck from the start exactly if no move can be made where its setup leaves it, in the
first turn and the first phase, although transitions would lead to where there is something to
decide. -/
theorem start_stuck_iff (h : g.start count seed = .ok s) :
    (s.turn = 1 ∧ g.definition.firstPhase? = some s.basePhase) ∧
      (¬((∃ p, ({ game := g } : Rules).advance { state := s } = .ok p) →
          ({ game := g } : Rules).Decides s) ↔
        (∀ m, ({ game := g } : Rules).standing s m ≠ .ok .complete) ∧
          ∃ k q, 0 < k ∧ k ≤ usualTransitions.toNat ∧
            ({ game := g } : Rules).Passes k { state := s } q ∧
            ({ game := g } : Rules).atDecision q.state = .ok true) := by
  refine ⟨first_of_start h, ?_⟩
  rw [Classical.not_imp]
  constructor
  · rintro ⟨⟨q, hadvance⟩, hundecided⟩
    obtain ⟨k, hk, hpasses, hdecides⟩ := Rules.advanceWithin_eq_ok_iff.1 hadvance
    refine ⟨fun m hm => hundecided (.inr ⟨m, hm⟩), k, q, ?_, hk, hpasses, hdecides⟩
    cases hpasses with
    | none => exact absurd (Rules.decides_of_atDecision hdecides) hundecided
    | next => exact Nat.succ_pos _
  · rintro ⟨hnone, k, q, hpos, hk, hpasses, hdecides⟩
    refine ⟨⟨q, Rules.advanceWithin_eq_ok_iff.2 ⟨k, hk, hpasses, hdecides⟩⟩, ?_⟩
    rintro (⟨outcome, houtcome⟩ | ⟨m, hm⟩)
    · cases hpasses with
      | none => exact absurd hpos (Nat.lt_irrefl 0)
      | next hundecided =>
        obtain ⟨found, hfound, hrest⟩ := bind_eq_ok hundecided
        cases hfound.symm.trans houtcome
        cases hrest
    · exact hnone m hm

end Game

/-! ## Runs -/

/-- The states that are reached by moves from a start, each with the moves that led to it. -/
inductive Game.Played (g : Game) : List Move → State → Prop where
  | start {count : Nat} {seed : UInt64} {s : State} (h : g.start count seed = .ok s) : Played g [] s
  | move {moves : List Move} {s : State} {r : Rules} {m : Move} {res : MoveResult}
      (hprior : Played g moves s) (hgame : r.game = g) (h : r.makeMove s m = .ok res) :
      Played g (moves ++ [m]) res.state

/-! ## An upkeep -/

/-- An action that is taken is allowed in the current phase. -/
theorem Rules.allowedIn_of_resolve {r : Rules} {s : State} {m : Move} {x : Resolution}
    (h : r.resolve s m = .ok x) :
    ∃ a ∈ r.definition.actions, a.allowedIn s.phase = true := by
  obtain ⟨a, grant, host, special, y, -, ha, -, -, hhost, -⟩ := resolve_eq_ok_iff.1 h
  obtain ⟨executor, -, hhost⟩ := bind_eq_ok hhost
  obtain ⟨⟨⟩, havailable, -⟩ := bind_eq_ok hhost
  obtain ⟨⟨⟩, hallowed, -⟩ := bind_eq_ok havailable
  have hsome : Proper (fun _ => False) (fun _ => a.allowedIn s.phase = true)
      (ensure (a.allowedIn s.phase) (.notInPhase s.phase) a.id) := .ensure _ _ _
  rw [hallowed] at hsome
  exact ⟨a, List.mem_of_find?_eq_some ha, hsome⟩

/-- A game with nothing to do in its first phase. -/
def Definition.upkeep : Definition :=
  { Definition.minimal "upkeep" with
    turn := .ofPhases ["upkeep", "main"]
    actions := [{ id := "act", phases := ["main"] }] }

/-- The rules of that game, under the usual limits. -/
def Rules.upkeep : Rules := { game := .ofDefinition .upkeep }

/-- Where two seats start that game. -/
def State.upkeep : State := (Rules.upkeep.game.start 2 0).toOption.getD default

/-- Nothing can be done in the first phase. -/
theorem Rules.standing_upkeep (m : Move) : Rules.upkeep.standing .upkeep m ≠ .ok .complete := by
  intro h
  obtain ⟨x, hx⟩ := standing_complete.1 h
  obtain ⟨a, ha, hallowed⟩ := allowedIn_of_resolve hx
  obtain rfl := List.mem_singleton.1 ha
  have hphase : State.upkeep.phase = "upkeep" := by decide +kernel
  rw [hphase] at hallowed
  exact absurd hallowed (by decide)

/-- In the game of upkeep two seats start in a state from which the game could go on to a decision,
but in which there is none. -/
theorem Game.start_stuck_upkeep :
    Rules.upkeep.game.start 2 0 = .ok .upkeep ∧
      ¬((∃ p, Rules.upkeep.advance { state := .upkeep } = .ok p) →
        Rules.upkeep.Decides .upkeep) := by
  have hstart : Rules.upkeep.game.start 2 0 = .ok .upkeep := by
    obtain ⟨s, hs⟩ : ∃ s, Rules.upkeep.game.start 2 0 = .ok s :=
      exists_ok_of_isOk (by decide +kernel)
    unfold State.upkeep
    rw [hs]
    rfl
  refine ⟨hstart, (Game.start_stuck_iff hstart).2.2 ⟨Rules.standing_upkeep, ?_⟩⟩
  obtain ⟨q, hq⟩ : ∃ q, Rules.upkeep.advance { state := .upkeep } = .ok q :=
    exists_ok_of_isOk (by decide +kernel)
  obtain ⟨k, hk, hpasses, hdecides⟩ := Rules.advanceWithin_eq_ok_iff.1 hq
  refine ⟨k, q, ?_, hk, hpasses, hdecides⟩
  cases hpasses with
  | none =>
    have hundecided : (Rules.upkeep.atDecision .upkeep).toOption = some false := by
      decide +kernel
    rw [hdecides] at hundecided
    cases hundecided
  | next => exact Nat.succ_pos _

end Tabletop
