import Tabletop.Play.Start
import Tabletop.Proofs.Play.Listing
import Tabletop.Proofs.Play.Steps

/-!
# Where a move leads to

A successful move ends where there is something to decide: the game is over, or some move can be
made.  The last thing that happens is that the state is stamped with its fingerprint, which neither
the outcome nor any move depends on.

Main statement: `Rules.decides_of_makeMove`.
-/

namespace Tabletop

/-! ## Stamps -/

/-- Nothing changes but the fingerprint, which becomes a given one. -/
def Widening.stamping (f : UInt64) : Widening where
  fingerprint _ := f

/-- A fingerprint is computed from everything else. -/
theorem State.computeFingerprint_stamp (s : State) :
    s.stamp.computeFingerprint = s.computeFingerprint := rfl

/-- A move that resolves in a state resolves in the stamped state. -/
theorem Rules.resolve_stamp {r : Rules} {s : State} {m : Move} {x : Resolution}
    (h : r.resolve s m = .ok x) : ∃ y, r.resolve s.stamp m = .ok y := by
  have hsame : (Widening.stamping s.computeFingerprint).Moves m m := Widening.moves_self rfl m
  obtain ⟨y, hy, -⟩ := (r.resolve_paired s hsame).of_ok h
  exact ⟨y, hy⟩

/-- A stamped state has the outcome of the state. -/
theorem Game.outcome?_stamp {g : Game} {s : State} {outcome : Option Outcome}
    (h : g.outcome? s = .ok outcome) : g.outcome? s.stamp = .ok outcome :=
  (g.outcome?_stays (.stamping s.computeFingerprint) s).eq_ok h

/-! ## Decision points -/

/-- There is something to decide in a state: the game is over, or a move can be made. -/
def Rules.Decides (r : Rules) (s : State) : Prop :=
  (∃ outcome, r.game.outcome? s = .ok (some outcome)) ∨ ∃ m, r.standing s m = .ok .complete

namespace Rules

variable {r : Rules} {s : State}

/-- A move stands complete exactly if it resolves. -/
theorem standing_complete {m : Move} :
    r.standing s m = .ok .complete ↔ ∃ x, r.resolve s m = .ok x := by
  unfold standing
  constructor
  · intro h
    cases hx : r.resolve s m with
    | ok x => exact ⟨x, rfl⟩
    | error st =>
      rw [hx] at h
      cases st <;> cases h
  · rintro ⟨x, hx⟩
    rw [hx]

/-- Where the test says so, there is something to decide. -/
theorem decides_of_atDecision (h : r.atDecision s = .ok true) : r.Decides s := by
  obtain ⟨outcome, houtcome, h⟩ := bind_eq_ok h
  cases outcome with
  | some o => exact .inl ⟨o, houtcome⟩
  | none =>
    obtain ⟨m, hm⟩ := exists_resolve_of_hasLegalMove h
    exact .inr ⟨m, standing_complete.2 hm⟩

/-- Stamping a state with its fingerprint leaves something to decide, if there was something. -/
theorem Decides.stamp (h : r.Decides s) : r.Decides s.stamp := by
  rcases h with ⟨outcome, houtcome⟩ | ⟨m, hm⟩
  · exact .inl ⟨outcome, Game.outcome?_stamp houtcome⟩
  · obtain ⟨x, hx⟩ := standing_complete.1 hm
    exact .inr ⟨m, standing_complete.2 (resolve_stamp hx)⟩

/-- A number of transitions, each out of a state in which there is nothing to decide. -/
inductive Passes (r : Rules) : Nat → Progress → Progress → Prop where
  | none (p : Progress) : Passes r 0 p p
  | next {n : Nat} {p p' q : Progress} (hundecided : r.atDecision p.state = .ok false)
      (htransition : r.transition p = .ok p') (hrest : Passes r n p' q) : Passes r (n + 1) p q

/-- Going on succeeds exactly if so many transitions lead to where there is something to decide. -/
theorem advanceWithin_eq_ok_iff :
    ∀ {n : Nat} {p q : Progress}, r.advanceWithin n p = .ok q ↔
      ∃ k ≤ n, r.Passes k p q ∧ r.atDecision q.state = .ok true := by
  intro n
  induction n with
  | zero =>
    intro p q
    constructor
    · intro h
      obtain ⟨decides, hdecides, h⟩ := bind_eq_ok h
      cases decides with
      | false => cases h
      | true =>
        cases h
        exact ⟨0, Nat.le_refl _, .none p, attempt_eq_ok hdecides⟩
    · rintro ⟨k, hk, hpasses, hdecides⟩
      obtain rfl := Nat.le_zero.1 hk
      cases hpasses
      exact bind_ok (congrArg _ hdecides) rfl
  | succ n ih =>
    intro p q
    constructor
    · intro h
      obtain ⟨decides, hdecides, h⟩ := bind_eq_ok h
      cases decides with
      | false =>
        obtain ⟨p', htransition, h⟩ := bind_eq_ok h
        obtain ⟨k, hk, hpasses, hdecision⟩ := ih.1 h
        exact ⟨k + 1, Nat.succ_le_succ hk, .next (attempt_eq_ok hdecides) htransition hpasses,
          hdecision⟩
      | true =>
        cases h
        exact ⟨0, Nat.zero_le _, .none p, attempt_eq_ok hdecides⟩
    · rintro ⟨k, hk, hpasses, hdecides⟩
      cases hpasses with
      | none => exact bind_ok (congrArg _ hdecides) rfl
      | next hundecided htransition hrest =>
        refine bind_ok (congrArg _ hundecided) (bind_ok htransition ?_)
        exact ih.2 ⟨_, Nat.le_of_succ_le_succ hk, hrest, hdecides⟩

/-- After a move there is something to decide, and the fingerprint is up to date. -/
theorem decides_of_makeMove {m : Move} {res : MoveResult} (h : r.makeMove s m = .ok res) :
    r.Decides res.state ∧ res.state.fingerprint = res.state.computeFingerprint := by
  obtain ⟨x, p, -, hcommit, hstate⟩ := makeMove_eq_ok h
  obtain ⟨⟨taken, events⟩, -, hcommit⟩ := bind_eq_ok hcommit
  obtain ⟨reacted, -, hcommit⟩ := bind_eq_ok hcommit
  obtain ⟨q, -, hadvance⟩ := goOn_eq_ok hcommit
  obtain ⟨-, -, -, hdecision⟩ := advanceWithin_eq_ok_iff.1 hadvance
  have hdecides := decides_of_atDecision hdecision
  rw [hstate]
  exact ⟨hdecides.stamp, p.state.computeFingerprint_stamp.symm⟩

end Rules

/-! ## A mint -/

/-- A mint for one seat, who strikes coins and melts them. -/
def Definition.mint : Definition :=
  { Definition.minimal "mint" with
    zones := [{ id := "bank" }]
    tokenTypes := [{ id := "coin" }]
    setup := [.create "coin" (.id "bank")]
    actions := [
      { id := "strike", effects := [.create "coin" (.id "bank")] },
      { id := "melt"
        effects := [.chooseOne "coin" (.tokens (.id "bank")), .destroyToken "coin"] }] }

/-- The rules of the mint, under the usual limits. -/
def Rules.mint : Rules := { game := .ofDefinition .mint }

/-- The mint with its first coin. -/
def State.mint : State := (Rules.mint.game.start 1 0).toOption.getD default

/-- After a coin has been struck at the mint there is something to decide, and the state has a
current fingerprint. -/
theorem Rules.decides_of_makeMove_mint :
    ∃ res, Rules.mint.makeMove .mint (.named "strike") = .ok res ∧ Rules.mint.Decides res.state ∧
      res.state.fingerprint = res.state.computeFingerprint := by
  obtain ⟨res, hres⟩ : ∃ res, Rules.mint.makeMove .mint (.named "strike") = .ok res :=
    exists_ok_of_isOk (by decide +kernel)
  exact ⟨res, hres, Rules.decides_of_makeMove hres⟩

end Tabletop
