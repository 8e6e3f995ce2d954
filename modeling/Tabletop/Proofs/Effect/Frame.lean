import Tabletop.Proofs.Effect.Asking

/-!
# What effects leave alone

Effects change variables, tokens, markers, grants, eligibility and the random numbers, and they
suspend the current phase; everything else about the course of a game is as it was.

Main statements: `Reaches.kept`, and `Reaches.unchanged` for anything else that no single alteration
changes.
-/

namespace Tabletop

/-- The phase that is current or has been suspended first. -/
def State.basePhase (s : State) : PhaseId := s.suspended.head?.getD s.phase

/-- The course of the game is where it was. -/
structure State.Kept (s t : State) : Prop where
  active : t.active = s.active
  seatCount : t.seatCount = s.seatCount
  turn : t.turn = s.turn
  usage : t.usage = s.usage
  lasting : t.lasting = s.lasting
  basePhase : t.basePhase = s.basePhase

namespace State.Kept

variable {s t u : State}

/-- A state keeps the course of the game that it has. -/
theorem refl (s : State) : s.Kept s := ⟨rfl, rfl, rfl, rfl, rfl, rfl⟩

/-- What is kept twice is kept. -/
theorem trans (hst : s.Kept t) (htu : t.Kept u) : s.Kept u where
  active := htu.active.trans hst.active
  seatCount := htu.seatCount.trans hst.seatCount
  turn := htu.turn.trans hst.turn
  usage := htu.usage.trans hst.usage
  lasting := htu.lasting.trans hst.lasting
  basePhase := htu.basePhase.trans hst.basePhase

/-- Writing a variable keeps the course of the game. -/
theorem setVar (s : State) (scope : VarScope) (name : String) (x : Int64) :
    s.Kept (s.setVar scope name x) := by
  cases scope with
  | global => exact ⟨rfl, rfl, rfl, rfl, rfl, rfl⟩
  | zone zone => exact ⟨rfl, rfl, rfl, rfl, rfl, rfl⟩
  | seat seat =>
    refine ⟨rfl, ?_, rfl, rfl, rfl, rfl⟩
    simp [State.setVar, State.seatCount, PerSeat.modify, PerSeat.size]

/-- A phase that is suspended for an interrupt stays where it is or becomes the first one. -/
theorem interrupt (s : State) (phase : PhaseId) :
    s.Kept { s with suspended := s.suspended ++ [s.phase], phase } := by
  refine ⟨rfl, rfl, rfl, rfl, rfl, ?_⟩
  unfold State.basePhase
  cases s.suspended with
  | nil => rfl
  | cons first rest => rfl

end State.Kept

/-- Every alteration keeps the course of the game: a phase may be put on hold, but not ended. -/
theorem Alters.kept {s : Setting} {x y : Session} (h : Alters s x y) : x.state.Kept y.state := by
  cases h with
  | storeVar hslot n =>
    unfold Site.storeVar
    split
    · exact .refl _
    · rw [Site.note_state]
      exact .setVar _ _ _ _
  | moveBlock =>
    rw [Site.arriveAll_state]
    exact ⟨rfl, rfl, rfl, rfl, rfl, rfl⟩
  | interrupt => exact .interrupt _ _
  | moveWithin => exact ⟨rfl, rfl, rfl, rfl, rfl, rfl⟩
  | roll => exact ⟨rfl, rfl, rfl, rfl, rfl, rfl⟩
  | grant => exact ⟨rfl, rfl, rfl, rfl, rfl, rfl⟩
  | override => exact ⟨rfl, rfl, rfl, rfl, rfl, rfl⟩
  | moveAcross =>
    unfold Site.arrive
    rw [Site.note_state]
    exact ⟨rfl, rfl, rfl, rfl, rfl, rfl⟩
  | _ =>
    rw [Site.note_state]
    exact ⟨rfl, rfl, rfl, rfl, rfl, rfl⟩

/-- What no alteration changes, no run changes. -/
theorem Reaches.unchanged {α : Type} (f : State → α) {s : Setting} {x y : Session}
    (hf : ∀ x y : Session, Alters s x y → f y.state = f x.state) (h : Reaches s x y) :
    f y.state = f x.state := by
  induction h with
  | refl => rfl
  | tail _ hstep ih =>
    cases hstep with
    | spend => exact ih
    | alter halters => exact (hf _ _ halters).trans ih

/-- Runs of effects leave the course of the game where it was. -/
theorem Reaches.kept {s : Setting} {x y : Session} (h : Reaches s x y) : x.state.Kept y.state := by
  induction h with
  | refl => exact .refl _
  | tail _ hstep ih =>
    cases hstep with
    | spend => exact ih
    | alter halters => exact ih.trans halters.kept

end Tabletop
