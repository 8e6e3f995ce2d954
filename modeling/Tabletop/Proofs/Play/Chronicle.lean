import Tabletop.Proofs.Play.Phases

/-!
# What has happened so far

A state does not say how the game came to it: which moves have been made since a phase was entered,
or which seats have been asked in a turn.  A chronicle is kept beside the game for that.  It is
continued when a move has been made and the game sets out for the next decision, and after every
transition on the way; what is added may depend on the states before and after.  The game never
reads it, so every run has its chronicle.

Main statements: `Game.Played.exists_told`, that every run can be told, and `Game.Told.invariant`,
by which what a chronicle says about a state is proved one stage of a move at a time.
-/

namespace Tabletop

/-- How a chronicle is begun and continued. -/
structure Chronicle (α : Type) where
  /-- What it says at the start of a game. -/
  first : α
  /-- What it says when a move has been made in a state and the game sets out from another. -/
  move : α → State → Move → State → α
  /-- What it says when a transition has led from a state to another. -/
  pass : α → State → State → α

variable {α : Type} {c : Chronicle α} {a b : α}

namespace Rules

variable {r : Rules} {p q : Progress} {s : State} {m : Move}

/-- A number of transitions, each out of a state in which there is nothing to decide, and what the
chronicle says before and after them. -/
inductive Tells (r : Rules) (c : Chronicle α) : α → Progress → α → Progress → Prop where
  | none (a : α) (p : Progress) : Tells r c a p a p
  | next {a b : α} {p p' q : Progress} (hundecided : r.atDecision p.state = .ok false)
      (htransition : r.transition p = .ok p')
      (hrest : Tells r c (c.pass a p.state p'.state) p' b q) : Tells r c a p b q

/-- Once a move has been made in a state, transitions lead the game to some progress; and what the
chronicle says in the state and there. -/
def Retells (r : Rules) (c : Chronicle α) (a : α) (s : State) (m : Move) (b : α)
    (q : Progress) : Prop :=
  ∃ x p p', r.resolve s m = .ok x ∧ r.carryOut m s.active x = .ok p ∧ r.SetsOut m p p' ∧
    r.Tells c (c.move a s m p'.state) p' b q

/-- Transitions can be told by any chronicle. -/
theorem Passes.exists_tells {k : Nat} (h : r.Passes k p q) (c : Chronicle α) (a : α) :
    ∃ b, r.Tells c a p b q := by
  induction h generalizing a with
  | none p => exact ⟨a, .none a p⟩
  | @next k p p' q hundecided htransition _ ih =>
    obtain ⟨b, hrest⟩ := ih (c.pass a p.state p'.state)
    exact ⟨b, .next hundecided htransition hrest⟩

/-- What a move comes to can be retold by any chronicle. -/
theorem ComesTo.exists_retells (h : r.ComesTo s m q) (c : Chronicle α) (a : α) :
    ∃ b, r.Retells c a s m b q := by
  obtain ⟨x, p, p', k, hx, hcarried, hout, hpasses⟩ := h
  obtain ⟨b, htells⟩ := hpasses.exists_tells c (c.move a s m p'.state)
  exact ⟨b, x, p, p', hx, hcarried, hout, htells⟩

/-- What holds of the chronicle and the state, and is kept by transitions, holds all the way. -/
theorem Tells.invariant {P : α → State → Prop}
    (hpass : ∀ {a p q}, r.atDecision p.state = .ok false → r.transition p = .ok q →
      P a p.state → P (c.pass a p.state q.state) q.state)
    (h : r.Tells c a p b q) (hp : P a p.state) : P b q.state := by
  induction h with
  | none => exact hp
  | next hundecided htransition _ ih => exact ih (hpass hundecided htransition hp)

end Rules

namespace Game

variable {g : Game} {moves : List Move} {s : State}

/-- The states that are reached by moves from a start, each with the moves that led to it and what
the chronicle says there. -/
inductive Told (g : Game) (c : Chronicle α) : List Move → α → State → Prop where
  | start {count : Nat} {seed : UInt64} {s : State} (h : g.start count seed = .ok s) :
      Told g c [] c.first s
  | move {moves : List Move} {a b : α} {s : State} {r : Rules} {m : Move} {res : MoveResult}
      {q : Progress} (hprior : Told g c moves a s) (hgame : r.game = g)
      (h : r.makeMove s m = .ok res) (hretells : r.Retells c a s m b q)
      (hdecides : r.atDecision q.state = .ok true) (hres : res.state = q.state.stamp) :
      Told g c (moves ++ [m]) b res.state

/-- A run that has been told has been played. -/
theorem Told.played (h : g.Told c moves a s) : g.Played moves s := by
  induction h with
  | start h => exact .start h
  | move _ hgame h _ _ _ ih => exact ih.move hgame h

/-- Every run can be told. -/
theorem Played.exists_told (h : g.Played moves s) (c : Chronicle α) : ∃ a, g.Told c moves a s := by
  induction h with
  | start h => exact ⟨c.first, .start h⟩
  | move hprior hgame h ih =>
    obtain ⟨a, ha⟩ := ih
    obtain ⟨q, hcomes, hdecides, hres⟩ := Rules.comesTo_of_makeMove h
    obtain ⟨b, hretells⟩ := hcomes.exists_retells c a
    exact ⟨b, ha.move hgame h hretells hdecides hres⟩

/-- What holds at the start, and is kept when a move is made, by transitions and when the state is
stamped, holds of the moves, the chronicle and the state wherever the game comes to. -/
theorem Told.invariant {P : List Move → α → State → Prop}
    (hstart : ∀ {count seed s}, g.start count seed = .ok s → P [] c.first s)
    (hmove : ∀ {r : Rules} {moves a s m x p p'}, r.game = g → r.resolve s m = .ok x →
      r.carryOut m s.active x = .ok p → r.SetsOut m p p' → P moves a s →
        P (moves ++ [m]) (c.move a s m p'.state) p'.state)
    (hpass : ∀ {r : Rules} {moves a p q}, r.game = g → r.atDecision p.state = .ok false →
      r.transition p = .ok q → P moves a p.state → P moves (c.pass a p.state q.state) q.state)
    (hstamp : ∀ {moves a s}, P moves a s → P moves a s.stamp) (h : g.Told c moves a s) :
    P moves a s := by
  induction h with
  | start h => exact hstart h
  | move _ hgame _ hretells _ hres ih =>
    obtain ⟨x, p, p', hx, hcarried, hout, htells⟩ := hretells
    rw [hres]
    exact hstamp (htells.invariant (hpass hgame) (hmove hgame hx hcarried hout ih))

end Game

/-! ## Telling a run -/

namespace Rules

variable {r : Rules} {p q : Progress} {s : State} {m : Move}

/-- Sets out for the next decision. -/
def setOut (r : Rules) (m : Move) (p : Progress) : Tracked Progress :=
  let (outcome, s) := p.state.afterMove r.definition m
  if outcome.turnEnded then r.endTurn (p.withState s) else .ok (p.withState s)

/-- Goes on to the next decision, by at most so many transitions, and continues the chronicle. -/
def tell? (r : Rules) (c : Chronicle α) : Nat → α → Progress → Option (α × Progress)
  | 0, a, p => do
    if ← (r.atDecision p.state).toOption then return (a, p) else none
  | n + 1, a, p => do
    if ← (r.atDecision p.state).toOption then return (a, p)
    else
      let p' ← (r.transition p).toOption
      r.tell? c n (c.pass a p.state p'.state) p'

/-- Makes a move, goes on to the next decision, and continues the chronicle. -/
def retell? (r : Rules) (c : Chronicle α) (a : α) (s : State) (m : Move) :
    Option (α × Progress) := do
  let x ← (r.resolve s m).toOption
  let p ← (r.carryOut m s.active x).toOption
  let p' ← (r.setOut m p).toOption
  r.tell? c r.limits.maxTransitions.toNat (c.move a s m p'.state) p'

/-- Committing a move is carrying it out and then going on. -/
theorem commit_eq (r : Rules) (m : Move) (mover : Seat) (x : Resolution) :
    r.commit m mover x = r.carryOut m mover x >>= r.goOn m := by
  simp [commit, carryOut]

/-- Going on after a move is setting out and then advancing to the next decision. -/
theorem goOn_eq (r : Rules) (m : Move) (p : Progress) :
    r.goOn m p = r.setOut m p >>= r.advance := by
  unfold goOn setOut
  dsimp only
  split <;> rfl

/-- Where a game has set out after a move it sets out as described. -/
theorem setsOut_of_setOut {p' : Progress} (h : r.setOut m p = .ok p') : r.SetsOut m p p' := by
  unfold setOut at h
  rw [setsOut_iff]
  cases hended : (p.state.afterMove r.definition m).1.turnEnded with
  | true =>
    simp only [hended, if_true] at h
    exact .inl ⟨rfl, h⟩
  | false =>
    simp only [hended, Bool.false_eq_true, if_false] at h
    exact .inr ⟨rfl, (Except.ok.inj h).symm⟩

/-- What is told by running the game is true of it: it comes to a decision by so many transitions at
most. -/
theorem tells_of_tell? :
    ∀ {n : Nat} {a b : α} {p q : Progress}, r.tell? c n a p = some (b, q) →
      r.Tells c a p b q ∧ (∃ k ≤ n, r.Passes k p q) ∧ r.atDecision q.state = .ok true := by
  intro n
  induction n with
  | zero =>
    intro a b p q h
    obtain ⟨decides, hdecides, h⟩ := Option.bind_eq_some_iff.1 h
    cases decides with
    | false => cases h
    | true =>
      cases h
      exact ⟨.none a p, ⟨0, Nat.le_refl _, .none p⟩, eq_ok_of_toOption hdecides⟩
  | succ n ih =>
    intro a b p q h
    obtain ⟨decides, hdecides, h⟩ := Option.bind_eq_some_iff.1 h
    cases decides with
    | true =>
      cases h
      exact ⟨.none a p, ⟨0, Nat.zero_le _, .none p⟩, eq_ok_of_toOption hdecides⟩
    | false =>
      obtain ⟨p', hstep, hrest⟩ := Option.bind_eq_some_iff.1 h
      obtain ⟨htells, ⟨k, hk, hpasses⟩, hdecision⟩ := ih hrest
      have hundecided := eq_ok_of_toOption hdecides
      have htransition := eq_ok_of_toOption hstep
      exact ⟨.next hundecided htransition htells,
        ⟨k + 1, Nat.succ_le_succ hk, .next hundecided htransition hpasses⟩, hdecision⟩

/-- A move that can be retold can be made. -/
theorem makeMove_of_retell? (h : r.retell? c a s m = some (b, q)) :
    r.Retells c a s m b q ∧ r.atDecision q.state = .ok true ∧
      ∃ res, r.makeMove s m = .ok res ∧ res.state = q.state.stamp := by
  obtain ⟨x, hx, h⟩ := Option.bind_eq_some_iff.1 h
  obtain ⟨p, hp, h⟩ := Option.bind_eq_some_iff.1 h
  obtain ⟨p', hp', h⟩ := Option.bind_eq_some_iff.1 h
  have hresolved := eq_ok_of_toOption hx
  have hcarried := eq_ok_of_toOption hp
  have hout := eq_ok_of_toOption hp'
  obtain ⟨htells, hpasses, hdecides⟩ := tells_of_tell? h
  refine ⟨⟨x, p, p', hresolved, hcarried, setsOut_of_setOut hout, htells⟩, hdecides, ?_⟩
  obtain ⟨k, hk, hpasses⟩ := hpasses
  have hadvance : r.advance p' = .ok q := advanceWithin_eq_ok_iff.2 ⟨k, hk, hpasses, hdecides⟩
  have hgo : r.goOn m p = .ok q := by
    rw [goOn_eq]
    exact bind_ok hout hadvance
  have hcommit : r.commit m s.active x = .ok q := by
    rw [commit_eq]
    exact bind_ok hcarried hgo
  unfold makeMove
  rw [hresolved]
  dsimp only
  rw [hcommit]
  exact ⟨_, rfl, rfl⟩

/-- Makes moves one after the other and continues the chronicle. -/
def retellAll? (r : Rules) (c : Chronicle α) : List Move → α → State → Option (α × State)
  | [], a, s => some (a, s)
  | m :: ms, a, s => do
    let (b, q) ← r.retell? c a s m
    r.retellAll? c ms b q.state.stamp

end Rules

/-- Moves that can be retold have been made. -/
theorem Game.Told.retellAll {g : Game} {r : Rules} (hgame : r.game = g) :
    ∀ {later moves : List Move} {a b : α} {s t : State}, g.Told c moves a s →
      r.retellAll? c later a s = some (b, t) → g.Told c (moves ++ later) b t := by
  intro later
  induction later with
  | nil =>
    intro moves a b s t htold h
    cases h
    rw [List.append_nil]
    exact htold
  | cons m later ih =>
    intro moves a b s t htold h
    obtain ⟨⟨a', q⟩, hmove, hrest⟩ := Option.bind_eq_some_iff.1 h
    obtain ⟨hretells, hdecides, res, hres, hstamp⟩ := Rules.makeMove_of_retell? hmove
    have htold' := htold.move hgame hres hretells hdecides hstamp
    rw [hstamp] at htold'
    rw [List.append_cons]
    exact ih htold' hrest

/-- What moves from a start are retold as has been told. -/
theorem Game.told_getD [Inhabited α] {g : Game} {r : Rules} (hgame : r.game = g) {count : Nat}
    {seed : UInt64} {s : State} (hstart : g.start count seed = .ok s) {moves : List Move}
    (h : (r.retellAll? c moves c.first s).isSome = true) :
    g.Told c moves ((r.retellAll? c moves c.first s).getD default).1
      ((r.retellAll? c moves c.first s).getD default).2 := by
  obtain ⟨⟨a, t⟩, htold⟩ := Option.isSome_iff_exists.1 h
  rw [htold]
  exact Told.retellAll hgame (.start hstart) htold

end Tabletop
