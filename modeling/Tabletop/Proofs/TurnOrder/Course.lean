import Tabletop.Proofs.Play.Opening
import Tabletop.Proofs.TurnOrder.Card

/-!
# The turn order in the course of a move

Of all that happens between two decisions little concerns the turn order.  Effects, triggers and
lasting effects leave it alone but for the books of a card, which they can stir.  The move that is
made is written down once, between what its actions and its triggers do and the end of its turn;
from there on seats are passed over, turns are started and the active seat is brought in line again.

Main statements: `Game.course_of_start` and `Rules.course_of_comesTo`, the turn order's view of a
start and of a move, and `Rules.comesTo_of_makeMove`, how a move comes to its end by transitions.
-/

namespace Tabletop

open Relation (ReflTransGen)

/-! ## What effects leave alone -/

/-- The turn order is where it was, but for the books of a card. -/
inductive Tracker.Stirs : Tracker → Tracker → Prop where
  | same (t : Tracker) : Stirs t t
  | card {c c' : CardState} (h : c.Stirs c') : Stirs (.cardDriven c) (.cardDriven c')

/-- What is stirred twice is stirred. -/
theorem Tracker.Stirs.trans {t u v : Tracker} (h : t.Stirs u) (h' : u.Stirs v) : t.Stirs v := by
  cases h with
  | same => exact h'
  | card hfirst =>
    cases h' with
    | same => exact .card hfirst
    | card hrest => exact .card (ReflTransGen.trans hfirst hrest)

/-- The turn order is where it was, but for the books of a card. -/
structure State.Stirs (s t : State) : Prop where
  active : t.active = s.active
  seatCount : t.seatCount = s.seatCount
  order : s.order.Stirs t.order

namespace State.Stirs

variable {s t u : State}

/-- A state is stirred by no step at all. -/
theorem refl (s : State) : s.Stirs s := ⟨rfl, rfl, .same _⟩

/-- Stirring a state twice stirs it. -/
theorem trans (h : s.Stirs t) (h' : t.Stirs u) : s.Stirs u where
  active := h'.active.trans h.active
  seatCount := h'.seatCount.trans h.seatCount
  order := h.order.trans h'.order

/-- Where nothing happens to the turn order, nothing is stirred. -/
theorem of_eq (hactive : t.active = s.active) (hcount : t.seatCount = s.seatCount)
    (horder : t.order = s.order) : s.Stirs t :=
  ⟨hactive, hcount, horder ▸ .same _⟩

/-- Writing down the fingerprint stirs nothing. -/
theorem stamp (s : State) : s.Stirs s.stamp := .of_eq rfl rfl rfl

/-- What happens to the books of a card. -/
theorem of_card {card card' : CardState} (hcard : s.order = .cardDriven card)
    (hstirs : card.Stirs card') : s.Stirs { s with order := .cardDriven card' } :=
  ⟨rfl, rfl, hcard ▸ .card hstirs⟩

end State.Stirs

/-- A tracker that has a card tracks an order by cards. -/
theorem Tracker.eq_of_card? {t : Tracker} {card : CardState} (h : t.card? = some card) :
    t = .cardDriven card := by
  cases t with
  | cardDriven card' => exact congrArg Tracker.cardDriven (Option.some.inj h)
  | roundRobin => cases h
  | fixed index => cases h
  | simultaneous submitted => cases h

/-- A step of effects stirs the turn order at most. -/
theorem Alters.stirs {s : Setting} {x y : Session} (h : Alters s x y) : x.state.Stirs y.state := by
  have hactive := h.kept.active
  have hcount := h.kept.seatCount
  cases h with
  | grant seat hcard huses =>
    exact .of_card (Tracker.eq_of_card? hcard) (.single (.grant _ seat huses))
  | override seat eligible hcard =>
    exact .of_card (Tracker.eq_of_card? hcard) (.single (.override _ seat eligible))
  | storeVar hslot n =>
    refine .of_eq hactive hcount ?_
    unfold Site.storeVar
    split
    · rfl
    · rw [Site.note_state]
      exact State.setVar_order _ _ _ _
  | moveBlock =>
    refine .of_eq hactive hcount ?_
    rw [Site.arriveAll_state]
    rfl
  | moveAcross =>
    refine .of_eq hactive hcount ?_
    unfold Site.arrive
    rw [Site.note_state]
    rfl
  | moveWithin => exact .of_eq hactive hcount rfl
  | roll => exact .of_eq hactive hcount rfl
  | interrupt => exact .of_eq hactive hcount rfl
  | _ =>
    refine .of_eq hactive hcount ?_
    rw [Site.note_state]
    rfl

/-- Runs of effects leave the turn order alone, but for the books of a card. -/
theorem Reaches.stirs {s : Setting} {x y : Session} (h : Reaches s x y) :
    x.state.Stirs y.state := by
  induction h with
  | refl => exact .refl _
  | tail _ hstep ih =>
    cases hstep with
    | spend => exact ih
    | alter halters => exact ih.trans halters.stirs

namespace Rules

variable {r : Rules} {p q : Progress}

/-- Effects under the rules stir the turn order at most. -/
theorem Runs.stirs {x y : Session} (h : r.Runs x y) : x.state.Stirs y.state := by
  induction h with
  | refl => exact .refl _
  | tail _ hstep ih =>
    obtain ⟨s, -, hstep⟩ := hstep
    exact ih.trans (Reaches.stirs (.single hstep))

/-- Effects under the rules leave what no effect reaches. -/
theorem Runs.kept {x y : Session} (h : r.Runs x y) : x.state.Kept y.state := by
  induction h with
  | refl => exact .refl _
  | tail _ hstep ih =>
    obtain ⟨s, -, hstep⟩ := hstep
    exact ih.trans (Reaches.kept (.single hstep))

/-- A step of triggers or lasting effects stirs the turn order at most. -/
theorem Stir.state (h : r.Stir p q) : p.state.Stirs q.state := by
  cases h with
  | effects hruns => exact hruns.stirs
  | fire f => exact .refl _
  | activate l => exact .of_eq rfl rfl rfl
  | expire d => exact .of_eq rfl rfl rfl
  | use action => exact .of_eq rfl rfl rfl
  | reset scope => exact .of_eq rfl rfl rfl

/-- Triggers and lasting effects leave the turn order alone, but for the books of a card. -/
theorem Stirs.state (h : r.Stirs p q) : p.state.Stirs q.state := by
  induction h with
  | refl => exact .refl _
  | tail _ hstep ih => exact ih.trans hstep.state

end Rules

/-! ## Going on -/

/-- One step of the turn order on the way to the next decision. -/
inductive State.Turns (d : Definition) : State → State → Prop where
  | stirs {s t : State} (h : s.Stirs t) : Turns d s t
  | skip (s : State) : Turns d s (s.skipStuckSeat d).2
  | rotate (s : State) : Turns d s (s.rotate d)
  | sync (s : State) : Turns d s (s.syncActive d)

/-- Several such steps, or none. -/
abbrev State.GoesOn (d : Definition) : State → State → Prop := ReflTransGen (State.Turns d)

namespace Rules

variable {r : Rules} {p q : Progress}

/-- A turn starts with the rotation of the turn order; the rest of it is no matter of the order. -/
theorem startTurn_rotates {s t : State} (h : r.startTurn s = .ok t) :
    (s.rotate r.definition).Stirs t := by
  obtain ⟨phase, -, h⟩ := bind_eq_ok h
  cases h
  exact .of_eq rfl rfl rfl

/-- One step towards the next decision takes the turn order on by steps of its own. -/
theorem Advance.goesOn (h : r.Advance p q) : p.state.GoesOn r.definition q.state := by
  cases h with
  | stir h => exact .single (.stirs h.state)
  | skip => exact .single (.skip p.state)
  | startTurn hstart => exact .head (.rotate p.state) (.single (.stirs (startTurn_rotates hstart)))
  | resume phase => exact .single (.stirs (.of_eq rfl rfl rfl))
  | @enterPhase phase hafter =>
    have hphase : p.state.Stirs { p.state with phase } := .of_eq rfl rfl rfl
    exact .head (.stirs hphase) (.single (.sync _))

/-- The way to the next decision takes the turn order on by steps of its own. -/
theorem GoesOn.state (h : r.GoesOn p q) : p.state.GoesOn r.definition q.state := by
  induction h with
  | refl => exact .refl
  | tail _ hstep ih => exact ih.trans hstep.goesOn

end Rules

/-! ## What the turn order leaves alone -/

/-- Neither the phase nor the turn nor the counts of uses differ. -/
structure State.SameMoment (s t : State) : Prop where
  phase : t.phase = s.phase
  suspended : t.suspended = s.suspended
  turn : t.turn = s.turn
  usage : t.usage = s.usage

namespace State.SameMoment

variable {s t u : State}

/-- A state is of the same moment as itself. -/
theorem refl (s : State) : s.SameMoment s := ⟨rfl, rfl, rfl, rfl⟩

/-- States of the same moment as a third one are of the same moment. -/
theorem trans (h : s.SameMoment t) (h' : t.SameMoment u) : s.SameMoment u where
  phase := h'.phase.trans h.phase
  suspended := h'.suspended.trans h.suspended
  turn := h'.turn.trans h.turn
  usage := h'.usage.trans h.usage

/-- Writing down the fingerprint takes no time. -/
theorem stamp (s : State) : s.SameMoment s.stamp := ⟨rfl, rfl, rfl, rfl⟩

/-- Writing down another place in the order takes no time. -/
theorem order (s : State) (order : Tracker) : s.SameMoment { s with order } := ⟨rfl, rfl, rfl, rfl⟩

/-- Using a grant takes no time. -/
theorem consumeGrant (s : State) (grant : String) : s.SameMoment (s.consumeGrant grant) :=
  .order s _

/-- Synchronising the active seat takes no time. -/
theorem syncActive (s : State) (d : Definition) : s.SameMoment (s.syncActive d) := by
  unfold State.syncActive
  split <;> exact ⟨rfl, rfl, rfl, rfl⟩

/-- Revealing a card takes no time. -/
theorem reveal (s : State) (source target : ZoneId) : s.SameMoment (s.reveal source target) := by
  unfold State.reveal
  split <;> exact ⟨rfl, rfl, rfl, rfl⟩

/-- Ending a card takes no time. -/
theorem endCard (s : State) (d : Definition) : s.SameMoment (s.endCard d) := by
  unfold State.endCard
  split
  · dsimp only
    split
    · exact (order s _).trans (reveal _ _ _)
    · exact .order s _
  · exact .refl s

/-- Settling a card takes no time. -/
theorem settleCard (s : State) (d : Definition) (rules : CardRules) :
    s.SameMoment (s.settleCard d rules).2 := by
  unfold State.settleCard
  split
  · exact (endCard s d).trans (syncActive _ d)
  · exact syncActive s d

/-- The turn order follows a move and nothing else does. -/
theorem afterMove (s : State) (d : Definition) (m : Move) : s.SameMoment (s.afterMove d m).2 := by
  unfold State.afterMove
  split
  · exact (order s _).trans (syncActive _ d)
  · exact (order s _).trans (settleCard _ d _)
  · exact syncActive s d

/-- Passing over a seat takes no time. -/
theorem skipStuckSeat (s : State) (d : Definition) : s.SameMoment (s.skipStuckSeat d).2 := by
  unfold State.skipStuckSeat
  split
  · exact .refl s
  · exact (order s _).trans (settleCard _ d _)

/-- Rotating the order takes no time. -/
theorem rotate (s : State) (d : Definition) : s.SameMoment (s.rotate d) := by
  unfold State.rotate
  refine SameMoment.trans ?_ (syncActive _ d)
  split <;> exact ⟨rfl, rfl, rfl, rfl⟩

end State.SameMoment

/-! ## A start -/

/-- A replicated table has an entry for each seat, up to the most there can be. -/
theorem PerSeat.size_replicate {α : Type} {count : Nat} (h : count ≤ 255) (x : α) :
    (PerSeat.replicate count x).size = count := by
  simp only [size, replicate, ofFn, Seat.all, List.length_map, List.length_range]
  exact Nat.mod_eq_of_lt (by omega)

namespace Game

variable {g : Game} {count : Nat} {seed : UInt64} {s : State}

/-- A blank state knows the active seat. -/
theorem blank_eq_ok {d : Definition} (h : d.blank count seed = .ok s) :
    s.order = .initial d.order count ∧ s.seatCount = count ∧ 0 < count ∧ count ≤ 255 ∧
      s.syncActive d = s := by
  unfold Definition.blank at h
  split at h
  · cases h
  · rename_i hadmits
    obtain ⟨phase, -, h⟩ := bind_eq_ok h
    cases h
    simp only [Definition.admits, Bool.not_eq_true', Bool.not_eq_false, Bool.and_eq_true,
      decide_eq_true_eq] at hadmits
    obtain ⟨⟨⟨hpositive, hsmall⟩, -⟩, -⟩ := hadmits
    have hsize := PerSeat.size_replicate hsmall (Variable.initials d.seatVars)
    refine ⟨rfl, hsize, Nat.pos_of_ne_zero hpositive, hsmall, ?_⟩
    simp only [State.syncActive, State.seatCount, hsize]
    cases (Tracker.initial d.order count).designated? d.order count with
    | none => rfl
    | some seat => rfl

/-- The turn order's view of a start: the setup stirs the books at most, and then the active seat is
brought in line. -/
theorem course_of_start (h : g.start count seed = .ok s) :
    ∃ blank t, g.definition.blank count seed = .ok blank ∧ blank.Stirs t ∧
      s = (t.syncActive g.definition).stamp := by
  obtain ⟨blank, hblank, hstart⟩ := start_eq_ok h
  refine ⟨blank, ?_⟩
  rcases hstart with ⟨rfl, -⟩ | ⟨x, hreaches, rfl⟩
  · obtain ⟨-, -, -, -, hsynced⟩ := blank_eq_ok hblank
    exact ⟨blank, hblank, .refl blank, by rw [hsynced]⟩
  · exact ⟨x.state, hblank, hreaches.stirs, rfl⟩

end Game

/-! ## A move -/

namespace State

/-- The state in which a free operation has used its grant, if a move is one. -/
def spendGrant (s : State) : Option String → State
  | some id => s.consumeGrant id
  | none => s

/-- How the turn order goes on after a move: if it has ended the turn, the next one starts. -/
def Closes (s : State) (d : Definition) (m : Move) (t : State) : Prop :=
  if (s.afterMove d m).1.turnEnded then
    ∃ s', (s.afterMove d m).2.Stirs s' ∧ (s'.rotate d).GoesOn d t
  else (s.afterMove d m).2.GoesOn d t

end State

namespace Rules

variable {r : Rules} {p q : Progress} {m : Move} {x : Resolution}

/-- The progress when the actions of a resolved move have been taken and the triggers have reacted:
all that comes before the move is written down. -/
def carryOut (r : Rules) (m : Move) (mover : Seat) (x : Resolution) : Tracked Progress := do
  let (p, events) ← r.takeActions m x
  r.reactTo x mover events p

/-- To commit a move is to carry it out and then to go on. -/
theorem commit_eq_ok {mover : Seat} (h : r.commit m mover x = .ok q) :
    ∃ p, r.carryOut m mover x = .ok p ∧ r.goOn m p = .ok q := by
  obtain ⟨⟨p₁, events⟩, htake, h⟩ := bind_eq_ok h
  obtain ⟨p₂, hreact, h⟩ := bind_eq_ok h
  exact ⟨p₂, bind_ok htake hreact, h⟩

/-- Taking the actions of a move leaves the turn order alone, but for the books of a card, and so do
the triggers; in between the grant of a free operation is used. -/
theorem carryOut_stirs {s : State} {mover : Seat} (hx : r.resolve s m = .ok x)
    (h : r.carryOut m mover x = .ok p) :
    ∃ s₁, s.Stirs s₁ ∧ (s₁.spendGrant x.grant).Stirs p.state := by
  obtain ⟨⟨p₁, events⟩, htake, hreact⟩ := bind_eq_ok h
  obtain ⟨p₀, htakes, htaken⟩ :=
    takeActions_takes (runs_of_resolve hx) (special_of_resolve hx) htake
  refine ⟨p₀.state, htakes.stirs.state, ?_⟩
  have hspent : p₁.state = p₀.state.spendGrant x.grant := by
    rw [htaken]
    cases x.grant <;> rfl
  rw [← hspent]
  exact (reactTo_stirs hreact).state

/-- The game sets out for the next decision: the move has been written down, and the turn has been
closed if that has ended it. -/
def SetsOut (r : Rules) (m : Move) (p q : Progress) : Prop :=
  if (p.state.afterMove r.definition m).1.turnEnded then
    r.endTurn (p.withState (p.state.afterMove r.definition m).2) = .ok q
  else q = p.withState (p.state.afterMove r.definition m).2

/-- The game sets out for the next decision with the move written down; if that has ended the turn,
the turn is closed. -/
theorem setsOut_iff :
    r.SetsOut m p q ↔
      (p.state.afterMove r.definition m).1.turnEnded = true ∧
          r.endTurn (p.withState (p.state.afterMove r.definition m).2) = .ok q ∨
        (p.state.afterMove r.definition m).1.turnEnded = false ∧
          q = p.withState (p.state.afterMove r.definition m).2 := by
  unfold SetsOut
  cases (p.state.afterMove r.definition m).1.turnEnded <;> simp

/-- Once a move has been made, transitions lead the game to some progress, each out of a state in
which there is nothing to decide. -/
def ComesTo (r : Rules) (s : State) (m : Move) (q : Progress) : Prop :=
  ∃ x p p' k, r.resolve s m = .ok x ∧ r.carryOut m s.active x = .ok p ∧ r.SetsOut m p p' ∧
    r.Passes k p' q

/-- A move that is made comes to a state in which there is something to decide. -/
theorem comesTo_of_makeMove {s : State} {res : MoveResult} (h : r.makeMove s m = .ok res) :
    ∃ q, r.ComesTo s m q ∧ r.atDecision q.state = .ok true ∧ res.state = q.state.stamp := by
  obtain ⟨x, q, hx, hcommit, rfl⟩ := makeMove_eq_ok h
  obtain ⟨p, hcarried, hgo⟩ := commit_eq_ok hcommit
  obtain ⟨p', hclosed, hadvance⟩ := goOn_eq_ok hgo
  obtain ⟨k, -, hpasses, hdecides⟩ := advanceWithin_eq_ok_iff.1 hadvance
  exact ⟨q, ⟨x, p, p', k, hx, hcarried, hclosed, hpasses⟩, hdecides, rfl⟩

/-- Transitions lead onwards. -/
theorem Passes.onwards {k : Nat} (h : r.Passes k p q) : r.Onwards p q := by
  induction h with
  | none => exact .refl
  | next _ htransition _ ih => exact (transition_onwards htransition).trans ih

/-- What holds when the game sets out, and what transitions preserve, holds all the way. -/
theorem Passes.invariant {P : State → Prop}
    (htransition : ∀ {p q : Progress}, r.transition p = .ok q → P p.state → P q.state) {k : Nat}
    (h : r.Passes k p q) (hp : P p.state) : P q.state := by
  induction h with
  | none => exact hp
  | next _ hstep _ ih => exact ih (htransition hstep hp)

/-- The turn order's view of a move: its actions and the triggers stir the books at most, then the
move is written down, and then the game goes on. -/
theorem course_of_comesTo {s : State} (h : r.ComesTo s m q) :
    ∃ x p, r.resolve s m = .ok x ∧ r.carryOut m s.active x = .ok p ∧
      p.state.Closes r.definition m q.state := by
  obtain ⟨x, p, p', k, hx, hcarried, hout, hpasses⟩ := h
  have hon := hpasses.onwards.goesOn.state
  refine ⟨x, p, hx, hcarried, ?_⟩
  unfold State.Closes
  rcases setsOut_iff.1 hout with ⟨hended, hout⟩ | ⟨hended, rfl⟩
  · obtain ⟨p₁, s, hbefore, hstart, hafter⟩ := endTurn_eq_ok hout
    rw [if_pos hended]
    refine ⟨p₁.state, hbefore.state, ?_⟩
    exact .head (.stirs (startTurn_rotates hstart)) (.head (.stirs hafter.state) hon)
  · rw [if_neg (by simp [hended])]
    exact hon

/-- A move that succeeds has been resolved and carried out, and then the turn order has gone on from
what it was. -/
theorem course_of_makeMove {s : State} {res : MoveResult} (h : r.makeMove s m = .ok res) :
    ∃ x p, r.resolve s m = .ok x ∧ r.carryOut m s.active x = .ok p ∧
      p.state.Closes r.definition m res.state := by
  obtain ⟨q, hcomes, -, hres⟩ := comesTo_of_makeMove h
  obtain ⟨x, p, hx, hcarried, hcloses⟩ := course_of_comesTo hcomes
  refine ⟨x, p, hx, hcarried, ?_⟩
  have hstamp : State.Turns r.definition q.state q.state.stamp := .stirs (.stamp _)
  rw [hres]
  unfold State.Closes at hcloses ⊢
  split
  · rename_i hended
    rw [if_pos hended] at hcloses
    obtain ⟨s', hstirs, hon⟩ := hcloses
    exact ⟨s', hstirs, hon.tail hstamp⟩
  · rename_i hended
    rw [if_neg hended] at hcloses
    exact hcloses.tail hstamp

/-- A move in turn uses no grant, and while grants are pending it passes. -/
theorem inTurn_of_resolve {s : State} (h : r.resolve s m = .ok x) (hfree : m.free = false) :
    x.grant = none ∧ (s.order.inGrantWindow = true → r.definition.isPass m.action = true) := by
  obtain ⟨a, grant, host, special, y, -, -, -, hgrant, -, -, -, rfl⟩ := resolve_eq_ok_iff.1 h
  unfold checkGrant at hgrant
  rw [hfree] at hgrant
  obtain ⟨⟨⟩, hensured, hgrant⟩ := bind_eq_ok hgrant
  refine ⟨(Except.ok.inj hgrant).symm, fun hwindow => ?_⟩
  have hor := ensure_eq_ok hensured
  simpa [hwindow] using hor

end Rules

end Tabletop
