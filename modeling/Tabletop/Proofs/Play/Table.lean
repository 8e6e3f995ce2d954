import Tabletop.Proofs.TurnOrder.Closing

/-!
# What happens to the table

The table of a state is what the game is about: its variables, its tokens and its markers.  All the
rest concerns the course of the game: whose turn of which phase it is, what has been used, what
lasts.  Between two decisions much is written down about the course, but the table is changed in two
ways only.  Effects alter it, and where a card ends the next one is revealed.

So what holds of the table in every state of a game is shown of single alterations and of the end of
a card.

Main statement: `Game.Played.of_changes`.
-/

namespace Tabletop

open Relation (ReflTransGen)

/-! ## The course of a game -/

/-- Nothing on the table differs. -/
structure State.SameTable (s t : State) : Prop where
  globalVars : t.globalVars = s.globalVars
  seatVars : t.seatVars = s.seatVars
  zoneVars : t.zoneVars = s.zoneVars
  store : t.store = s.store
  markers : t.markers = s.markers

namespace State

variable {s t u : State} {d : Definition} {rules : CardRules}

namespace SameTable

/-- A table is the same as itself. -/
theorem refl (s : State) : s.SameTable s := ⟨rfl, rfl, rfl, rfl, rfl⟩

/-- If one table is the same as another, so is the other as the one. -/
theorem symm (h : s.SameTable t) : t.SameTable s :=
  ⟨h.globalVars.symm, h.seatVars.symm, h.zoneVars.symm, h.store.symm, h.markers.symm⟩

/-- Tables that are the same as one table are the same. -/
theorem trans (h : s.SameTable t) (h' : t.SameTable u) : s.SameTable u where
  globalVars := h'.globalVars.trans h.globalVars
  seatVars := h'.seatVars.trans h.seatVars
  zoneVars := h'.zoneVars.trans h.zoneVars
  store := h'.store.trans h.store
  markers := h'.markers.trans h.markers

/-- Around the same table there are as many seats. -/
theorem seatCount (h : s.SameTable t) : t.seatCount = s.seatCount :=
  congrArg PerSeat.size h.seatVars

/-- Stamping a state leaves its table. -/
theorem stamp (s : State) : s.SameTable s.stamp := ⟨rfl, rfl, rfl, rfl, rfl⟩

/-- The turn order is not on the table. -/
theorem order (s : State) (order : Tracker) : s.SameTable { s with order } :=
  ⟨rfl, rfl, rfl, rfl, rfl⟩

/-- Synchronising the active seat leaves the table. -/
theorem syncActive (s : State) (d : Definition) : s.SameTable (s.syncActive d) := by
  unfold State.syncActive
  split <;> exact ⟨rfl, rfl, rfl, rfl, rfl⟩

/-- Handing over to the next seat leaves the table. -/
theorem rotate (s : State) (d : Definition) : s.SameTable (s.rotate d) := by
  unfold State.rotate
  refine SameTable.trans ?_ (syncActive _ d)
  split <;> exact ⟨rfl, rfl, rfl, rfl, rfl⟩

/-- What a reveal does to the table is told by the table. -/
theorem reveal (h : s.SameTable t) (source target : ZoneId) :
    (s.reveal source target).SameTable (t.reveal source target) := by
  unfold State.reveal
  rw [h.store]
  split
  · exact h
  · exact ⟨h.globalVars, h.seatVars, h.zoneVars, rfl, h.markers⟩

/-- What the end of a card does to the table is told by the table. -/
theorem endCard (h : s.SameTable t) (hs : s.order.card?.isSome = true)
    (ht : t.order.card?.isSome = true) : (s.endCard d).SameTable (t.endCard d) := by
  obtain ⟨card, hcard⟩ := Option.isSome_iff_exists.1 hs
  obtain ⟨card', hcard'⟩ := Option.isSome_iff_exists.1 ht
  unfold State.endCard
  rw [Tracker.eq_of_card? hcard, Tracker.eq_of_card? hcard']
  cases d.order with
  | cardDriven rules =>
    dsimp only
    have hnext := (order s (.cardDriven card.nextCard)).symm.trans
      (h.trans (order t (.cardDriven card'.nextCard)))
    split
    · exact hnext.reveal _ _
    · exact hnext
  | _ => exact h

end SameTable

/-- A function of the turn order leaves the table alone, or ends the card. -/
def EndsCard (s : State) (d : Definition) (ends : Bool) (t : State) : Prop :=
  ends = true ∧ (s.endCard d).SameTable t ∨ ends = false ∧ s.SameTable t

/-- What has been changed of the books before does not matter. -/
theorem EndsCard.of_order {ends : Bool} {order : Tracker} (hs : s.order.card?.isSome = true)
    (horder : order.card?.isSome = true) (h : EndsCard { s with order } d ends t) :
    s.EndsCard d ends t := by
  have hbooks := SameTable.order s order
  rcases h with ⟨hended, h⟩ | ⟨hended, h⟩
  · exact .inl ⟨hended, (hbooks.endCard hs horder).trans h⟩
  · exact .inr ⟨hended, hbooks.trans h⟩

/-- Settling a card leaves the table, or ends the card. -/
theorem settleCard_endsCard (s : State) (d : Definition) (rules : CardRules) :
    s.EndsCard d (s.settleCard d rules).1.cardEnded (s.settleCard d rules).2 := by
  unfold settleCard
  split
  · exact .inl ⟨rfl, .syncActive _ d⟩
  · exact .inr ⟨rfl, .syncActive s d⟩

/-- What a move does to the turn order leaves the table, or ends the card. -/
theorem afterMove_endsCard (s : State) (d : Definition) (m : Move) :
    s.EndsCard d (s.afterMove d m).1.cardEnded (s.afterMove d m).2 := by
  unfold afterMove
  split
  · exact .inr ⟨rfl, (SameTable.order s _).trans (.syncActive _ d)⟩
  · rename_i rules card _ hcard
    refine (settleCard_endsCard _ d rules).of_order ?_ rfl
    rw [hcard]
    rfl
  · exact .inr ⟨rfl, .syncActive s d⟩

/-- Passing over a seat that is stuck leaves the table, or ends the card. -/
theorem skipStuckSeat_endsCard (s : State) (d : Definition) :
    s.EndsCard d (s.skipStuckSeat d).1.cardEnded (s.skipStuckSeat d).2 := by
  unfold skipStuckSeat
  split
  · exact .inr ⟨rfl, .refl s⟩
  · rename_i rules _
    cases hcard : s.order.card? with
    | some card =>
      rw [Tracker.eq_of_card? hcard]
      refine (settleCard_endsCard _ d rules).of_order ?_ rfl
      rw [hcard]
      rfl
    | none =>
      -- Without a card there is none that could be over.
      have hsame : s.order.modifyCard (fun c => c.skip s.active) = s.order := by
        unfold Tracker.modifyCard
        split
        · rename_i card horder
          rw [horder] at hcard
          cases hcard
        · rfl
      rw [hsame]
      refine .inr ⟨?_, ?_⟩
      · simp [settleCard, hcard]
      · simp only [settleCard, hcard, Option.any_none, Bool.false_eq_true, if_false]
        exact .syncActive s d

end State

/-! ## Blank states -/

/-- What a blank state holds. -/
structure State.IsBlank (s : State) (d : Definition) (count : Nat) : Prop where
  globalVars : s.globalVars = Variable.initials d.globalVars
  seatVars : s.seatVars = .replicate count (Variable.initials d.seatVars)
  zoneVars : s.zoneVars = d.initialZoneVars
  store : s.store = d.zones.foldl (fun store z => store.addZone z.id) .empty
  markers : s.markers = d.initialMarkers
  active : s.active = ((Tracker.initial d.order count).designated? d.order count).getD ⟨0⟩
  order : s.order = .initial d.order count
  line : ∃ first, d.firstPhase? = some first ∧ s.line = [first]
  lasting : s.lasting = []

/-- A blank state has the initial values, the declared zones, the first phase and the first seat of
its definition. -/
theorem State.isBlank {d : Definition} {count : Nat} {seed : UInt64} {s : State}
    (h : d.blank count seed = .ok s) : s.IsBlank d count := by
  unfold Definition.blank at h
  split at h
  · cases h
  · obtain ⟨first, hfirst, h⟩ := bind_eq_ok h
    cases h
    exact ⟨rfl, rfl, rfl, rfl, rfl, rfl, rfl, ⟨first, orFault_eq_ok hfirst, rfl⟩, rfl⟩

/-! ## Changes -/

namespace Game

/-- An alteration by an effect, or anything about the course of the game. -/
inductive Touches (g : Game) : State → State → Prop where
  | alter {setting : Setting} {x y : Session} (hgame : setting.game = g) (h : Alters setting x y) :
      Touches g x.state y.state
  | course {s t : State} (h : s.SameTable t) : Touches g s t

/-- Several of these, or none. -/
abbrev Touched (g : Game) : State → State → Prop := ReflTransGen g.Touches

/-- One way in which the table of a game can change. -/
inductive Changes (g : Game) : State → State → Prop where
  | touch {s t : State} (h : g.Touches s t) : Changes g s t
  | endCard (s : State) : Changes g s (s.endCard g.definition)

/-- Several changes, or none. -/
abbrev Changed (g : Game) : State → State → Prop := ReflTransGen g.Changes

variable {g : Game} {s t : State}

/-- What touches a state is one way in which its table can change. -/
theorem Touched.changed (h : g.Touched s t) : g.Changed s t := h.lift id (fun _ _ => .touch)

end Game

/-- A run of effects touches the state. -/
theorem Reaches.touched {setting : Setting} {x y : Session} (h : Reaches setting x y) :
    setting.game.Touched x.state y.state := by
  induction h with
  | refl => exact .refl
  | tail _ hstep ih =>
    cases hstep with
    | spend => exact ih
    | alter halters => exact ih.tail (.alter rfl halters)

namespace Rules

variable {r : Rules} {p q : Progress} {s : State} {m : Move} {x : Resolution}

/-- A run of effects under the rules touches the state. -/
theorem Runs.touched {x y : Session} (h : r.Runs x y) : r.game.Touched x.state y.state := by
  induction h with
  | refl => exact .refl
  | tail _ hstep ih =>
    obtain ⟨setting, hunder, hstep⟩ := hstep
    have htouched := Reaches.touched (.single hstep)
    rw [hunder.game] at htouched
    exact ih.trans htouched

/-- What stirs a progress touches its state. -/
theorem Stir.touched (h : r.Stir p q) : r.game.Touched p.state q.state := by
  cases h with
  | effects hruns => exact hruns.touched
  | fire f => exact .refl
  | activate l => exact .single (.course ⟨rfl, rfl, rfl, rfl, rfl⟩)
  | expire d => exact .single (.course ⟨rfl, rfl, rfl, rfl, rfl⟩)
  | use action => exact .single (.course ⟨rfl, rfl, rfl, rfl, rfl⟩)
  | reset scope => exact .single (.course ⟨rfl, rfl, rfl, rfl, rfl⟩)

/-- Triggers and lasting effects touch the table by effects. -/
theorem Stirs.touched (h : r.Stirs p q) : r.game.Touched p.state q.state := by
  induction h with
  | refl => exact .refl
  | tail _ hstep ih => exact ih.trans hstep.touched

/-- Carrying a resolved move out touches the state. -/
theorem carryOut_touched {mover : Seat} (hx : r.resolve s m = .ok x)
    (h : r.carryOut m mover x = .ok p) : r.game.Touched s p.state := by
  obtain ⟨⟨p₁, events⟩, htake, hreact⟩ := bind_eq_ok h
  obtain ⟨p₀, htakes, htaken⟩ :=
    takeActions_takes (runs_of_resolve hx) (special_of_resolve hx) htake
  have hspent : p₀.state.SameTable p₁.state := by
    rw [htaken]
    cases x.grant with
    | none => exact .refl _
    | some id => exact .order _ _
  exact (htakes.stirs.touched.tail (.course hspent)).trans (reactTo_stirs hreact).touched

/-- Leaving a phase touches the state. -/
theorem leavePhase_touched (h : r.leavePhase p = .ok q) : r.game.Touched p.state q.state := by
  obtain ⟨p', hripples, rfl⟩ := leavePhase_eq_ok h
  exact hripples.stirs.touched.tail (.course ⟨rfl, rfl, rfl, rfl, rfl⟩)

/-- Starting a turn leaves the table. -/
theorem startTurn_sameTable {t : State} (h : r.startTurn s = .ok t) : s.SameTable t := by
  obtain ⟨phase, -, h⟩ := bind_eq_ok h
  cases h
  exact State.SameTable.trans (.rotate s r.definition) ⟨rfl, rfl, rfl, rfl, rfl⟩

/-- Ending a turn touches the state. -/
theorem endTurn_touched (h : r.endTurn p = .ok q) : r.game.Touched p.state q.state := by
  obtain ⟨p', s, hbefore, hstart, hafter⟩ := endTurn_eq_ok h
  exact (hbefore.touched.tail (.course (startTurn_sameTable hstart))).trans hafter.touched

/-- Entering a phase touches the state. -/
theorem enterPhase_touched {phase : PhaseId} (h : r.enterPhase phase p = .ok q) :
    r.game.Touched p.state q.state := by
  have hentered : p.state.SameTable { p.state with phase } := ⟨rfl, rfl, rfl, rfl, rfl⟩
  exact .head (.course (hentered.trans (.syncActive _ _))) (dispatch_ripples h).stirs.touched

/-- Unless setting out ends the card, effects alone touch the table; otherwise they do after
that. -/
theorem SetsOut.touched (h : r.SetsOut m p q) :
    (p.state.afterMove r.definition m).1.cardEnded = true ∧
        r.game.Touched (p.state.endCard r.definition) q.state ∨
      (p.state.afterMove r.definition m).1.cardEnded = false ∧
        r.game.Touched p.state q.state := by
  have hafter : r.game.Touched (p.state.afterMove r.definition m).2 q.state := by
    rcases setsOut_iff.1 h with ⟨-, h⟩ | ⟨-, rfl⟩
    · exact endTurn_touched h
    · exact .refl
  rcases p.state.afterMove_endsCard r.definition m with ⟨hended, hsame⟩ | ⟨hended, hsame⟩
  · exact .inl ⟨hended, .head (.course hsame) hafter⟩
  · exact .inr ⟨hended, .head (.course hsame) hafter⟩

/-- A transition passes over a seat and ends the card by that. -/
structure SkipsCard (r : Rules) (s : State) : Prop where
  none : s.suspended = []
  cards : r.definition.order.cards?.isSome = true
  ended : (s.skipStuckSeat r.definition).1.cardEnded = true

/-- Unless a transition ends the card, effects alone touch the table; otherwise they do after
that. -/
theorem touched_of_transition (h : r.transition p = .ok q) :
    r.SkipsCard p.state ∧ r.game.Touched (p.state.endCard r.definition) q.state ∨
      r.game.Touched p.state q.state := by
  have hskip (hnone : p.state.suspended = []) (hcards : r.definition.order.cards?.isSome = true)
      (hafter : r.game.Touched (p.state.skipStuckSeat r.definition).2 q.state) :
      r.SkipsCard p.state ∧ r.game.Touched (p.state.endCard r.definition) q.state ∨
        r.game.Touched p.state q.state := by
    rcases p.state.skipStuckSeat_endsCard r.definition with ⟨hended, hsame⟩ | ⟨-, hsame⟩
    · exact .inl ⟨⟨hnone, hcards, hended⟩, .head (.course hsame) hafter⟩
    · exact .inr (.head (.course hsame) hafter)
  cases transits_of_transition h with
  | resume _ hleave h =>
    subst h
    exact .inr ((leavePhase_touched hleave).tail (.course ⟨rfl, rfl, rfl, rfl, rfl⟩))
  | skip hnone hcards _ h =>
    subst h
    exact hskip hnone hcards .refl
  | skipAll hnone hcards _ h => exact hskip hnone hcards (endTurn_touched h)
  | enter _ _ hleave _ h => exact .inr ((leavePhase_touched hleave).trans (enterPhase_touched h))
  | close _ _ hleave _ h => exact .inr (endTurn_touched (bind_ok hleave h))

/-- Setting out after a move changes the table by touching it and perhaps by ending a card. -/
theorem changed_of_setsOut (h : r.SetsOut m p q) : r.game.Changed p.state q.state := by
  rcases h.touched with ⟨-, h⟩ | ⟨-, h⟩
  · exact .head (.endCard _) h.changed
  · exact h.changed

/-- A transition changes the table by touching it and perhaps by ending a card. -/
theorem changed_of_transition (h : r.transition p = .ok q) : r.game.Changed p.state q.state := by
  rcases touched_of_transition h with ⟨-, h⟩ | h
  · exact .head (.endCard _) h.changed
  · exact h.changed

/-- Wherever a move comes to, the table has changed in these ways only. -/
theorem changed_of_comesTo (h : r.ComesTo s m q) : r.game.Changed s q.state := by
  obtain ⟨x, p, p', k, hx, hcarried, hout, hpasses⟩ := h
  have hbefore := (carryOut_touched hx hcarried).changed.trans (changed_of_setsOut hout)
  exact hpasses.invariant (P := r.game.Changed s)
    (fun htransition hp => hp.trans (changed_of_transition htransition)) hbefore

end Rules

namespace Game

variable {g : Game} {moves : List Move} {s : State}

/-- The setup touches the table of a blank state. -/
theorem touched_of_start {count : Nat} {seed : UInt64} (h : g.start count seed = .ok s) :
    ∃ blank, g.definition.blank count seed = .ok blank ∧ g.Touched blank s := by
  obtain ⟨blank, hblank, hstart⟩ := start_eq_ok h
  refine ⟨blank, hblank, ?_⟩
  rcases hstart with ⟨rfl, -⟩ | ⟨x, hreaches, rfl⟩
  · exact .single (.course (.stamp blank))
  · have hsynced := (State.SameTable.syncActive x.state g.definition).trans (.stamp _)
    exact hreaches.touched.tail (.course hsynced)

/-- What holds of blank states, and is kept whenever the table changes, holds in every state of a
game. -/
theorem Played.of_changes {P : State → Prop}
    (hblank : ∀ {count seed s}, g.definition.blank count seed = .ok s → P s)
    (hchange : ∀ {s t}, g.Changes s t → P s → P t) (h : g.Played moves s) : P s := by
  have hchanged {s t : State} (h : g.Changed s t) (hs : P s) : P t := by
    induction h with
    | refl => exact hs
    | tail _ hstep ih => exact hchange hstep ih
  induction h with
  | start h =>
    obtain ⟨blank, hb, htouched⟩ := touched_of_start h
    exact hchanged htouched.changed (hblank hb)
  | @move moves s r m res hprior hgame hmove ih =>
    subst hgame
    obtain ⟨q, hcomes, -, hres⟩ := Rules.comesTo_of_makeMove hmove
    rw [hres]
    exact hchanged ((Rules.changed_of_comesTo hcomes).tail (.touch (.course (.stamp _)))) ih

/-! ## Seats -/

/-- What touches a state leaves the number of its seats. -/
theorem Touches.seatCount {s t : State} (h : g.Touches s t) : t.seatCount = s.seatCount := by
  cases h with
  | alter _ h => exact h.kept.seatCount
  | course h => exact h.seatCount

/-- A change of the table leaves the number of seats. -/
theorem Changes.seatCount {s t : State} (h : g.Changes s t) : t.seatCount = s.seatCount := by
  cases h with
  | touch h => exact h.seatCount
  | endCard =>
    unfold State.endCard
    split
    · dsimp only
      split
      · unfold State.reveal
        split <;> rfl
      · rfl
    · rfl

/-- Changes of the table leave the number of seats. -/
theorem Changed.seatCount {s t : State} (h : g.Changed s t) : t.seatCount = s.seatCount := by
  induction h with
  | refl => rfl
  | tail _ hstep ih => exact hstep.seatCount.trans ih

end Game

end Tabletop
