import Mathlib.Data.List.Forall2
import Mathlib.Data.List.Nodup
import Tabletop.Play.Outcome
import Tabletop.Proofs.TurnOrder.Coverage

/-!
# How a game is decided, and who stands where

A game that is over has been decided by one thing: the first of its end conditions that holds, or
else the first of the checkpoints of its victory, those that count at any time before the final
ones.  `Game.Decides` says so without a word about the search.

A ranking puts the better score first, and of two that are equal the one that was given first.  What
makes it exact is to give every score its place: scores with their places are never equal, so there
is only one way to order them (`Score.ranks_iff`).

Main statement: `Game.outcome?_eq_ok_iff`.
-/

namespace Tabletop

/-! ## The first that holds -/

section search

variable {α β : Type} {test : α → Result Bool} {yield : α → Result β} {x : α} {xs : List α}

/-- None of several items holds. -/
def NoneHolds (test : α → Result Bool) (xs : List α) : Prop := ∀ x ∈ xs, test x = .ok false

/-- An item holds, and none before it does. -/
def FirstHolding (test : α → Result Bool) (xs : List α) (x : α) : Prop :=
  ∃ before after, xs = before ++ x :: after ∧ NoneHolds test before ∧ test x = .ok true

/-- The first item that holds is one of the items. -/
theorem FirstHolding.mem (h : FirstHolding test xs x) : x ∈ xs := by
  obtain ⟨before, after, rfl, -, -⟩ := h
  exact List.mem_append_right before List.mem_cons_self

/-- The first item that holds is the first one, or it is the first of the others if that one does
not. -/
theorem firstHolding_cons {y : α} :
    FirstHolding test (x :: xs) y ↔
      test x = .ok true ∧ y = x ∨ test x = .ok false ∧ FirstHolding test xs y := by
  constructor
  · rintro ⟨before, after, hxs, hbefore, hy⟩
    cases before with
    | nil =>
      cases hxs
      exact .inl ⟨hy, rfl⟩
    | cons z before =>
      cases hxs
      obtain ⟨hz, hbefore⟩ := List.forall_mem_cons.1 hbefore
      exact .inr ⟨hz, before, after, rfl, hbefore, hy⟩
  · rintro (⟨hx, rfl⟩ | ⟨hx, before, after, rfl, hbefore, hy⟩)
    · exact ⟨[], xs, rfl, nofun, hx⟩
    · exact ⟨x :: before, after, rfl, List.forall_mem_cons.2 ⟨hx, hbefore⟩, hy⟩

/-- The first item of two lists that holds is the first of the one, or of the other if none of the
one does. -/
theorem firstHolding_append {ys : List α} {y : α} :
    FirstHolding test (xs ++ ys) y ↔
      FirstHolding test xs y ∨ NoneHolds test xs ∧ FirstHolding test ys y := by
  induction xs with
  | nil =>
    have hnil : ¬FirstHolding test [] y := fun h => List.not_mem_nil h.mem
    simp [hnil, NoneHolds]
  | cons x xs ih =>
    have hcons : NoneHolds test (x :: xs) ↔ test x = .ok false ∧ NoneHolds test xs :=
      List.forall_mem_cons
    rw [List.cons_append, firstHolding_cons, firstHolding_cons, ih, hcons]
    grind

/-- What a search yields that takes up the first item that holds. -/
def Finds (test : α → Result Bool) (yield : α → Result β) (xs : List α) : Option β → Prop
  | none => NoneHolds test xs
  | some b => ∃ x, FirstHolding test xs x ∧ yield x = .ok b

/-- A search among nothing yields nothing. -/
theorem finds_nil {o : Option β} : Finds test yield [] o ↔ o = none := by
  cases o with
  | none => exact iff_of_true nofun rfl
  | some b => exact iff_of_false (fun ⟨_, h, _⟩ => List.not_mem_nil h.mem) nofun

/-- A search yields what the first item does, if it holds, or else it goes on with the others. -/
theorem finds_cons {o : Option β} :
    Finds test yield (x :: xs) o ↔
      (test x = .ok true ∧ ∃ b, yield x = .ok b ∧ o = some b) ∨
        test x = .ok false ∧ Finds test yield xs o := by
  cases o with
  | none => simp [Finds, NoneHolds]
  | some b =>
    simp only [Finds, firstHolding_cons]
    grind

/-- A computation for a predicate succeeds as the computation does. -/
theorem inPredicate_eq_ok_iff {name : Predicate} {a : Result α} :
    inPredicate name a = .ok x ↔ a = .ok x :=
  ⟨inPredicate_eq_ok, fun h => by rw [h]; rfl⟩

/-- One step of a search: an item that holds is taken up, and one that does not is passed over. -/
theorem search_step_eq_ok_iff {name : Predicate} {held : Result Bool} {taken : Result β}
    {rest : Result (Option β)} {o : Option β} :
    (do if ← inPredicate name held then return some (← taken) else rest) = .ok o ↔
      (held = .ok true ∧ ∃ b, taken = .ok b ∧ o = some b) ∨ held = .ok false ∧ rest = .ok o := by
  cases held with
  | error fault => exact iff_of_false nofun (by rintro (⟨hheld, -⟩ | ⟨hheld, -⟩) <;> cases hheld)
  | ok holds =>
    cases holds with
    | false => exact ⟨fun h => .inr ⟨rfl, h⟩, fun h => (h.resolve_left nofun).2⟩
    | true =>
      refine ⟨fun h => ?_, fun h => ?_⟩
      · change (do return some (← taken)) = .ok o at h
        obtain ⟨b, hb, h⟩ := bind_eq_ok h
        exact .inl ⟨rfl, b, hb, (Except.ok.inj h).symm⟩
      · obtain ⟨-, b, rfl, rfl⟩ := h.resolve_right nofun
        rfl

end search

/-! ## Rankings -/

namespace Score

/-- Whether a score with its place comes before another: it is the better one, or as good and placed
earlier. -/
def Before (ascending : Bool) (x y : Score × Nat) : Prop :=
  (if ascending then x.1.score < y.1.score else y.1.score < x.1.score) ∨
    x.1.score = y.1.score ∧ x.2 < y.2

/-- A ranking lists the scores that are given, each as often as it is given: the better first, and
of equal ones the one that is given first. -/
def Ranks (ascending : Bool) (given ranking : List Score) : Prop :=
  ∃ placed : List (Score × Nat), placed.Perm given.zipIdx ∧ placed.Pairwise (Before ascending) ∧
    placed.map Prod.fst = ranking

/-- The scores in the order asked for. -/
def sorted (ascending : Bool) (scores : List Score) : List Score :=
  if ascending then lowestFirst scores else highestFirst scores

/-- Whether a score may stand before another. -/
def le (ascending : Bool) (a b : Score) : Bool :=
  if ascending then a.score ≤ b.score else b.score ≤ a.score

variable {ascending : Bool}

/-- Sorting scores is sorting them by merging, which keeps equal ones in their order. -/
theorem sorted_eq (scores : List Score) :
    sorted ascending scores = scores.mergeSort (le ascending) := by
  cases ascending <;> rfl

/-- The order of scores is transitive. -/
theorem le_trans (a b c : Score) (h : le ascending a b = true) (h' : le ascending b c = true) :
    le ascending a c = true := by
  cases ascending <;> simp only [le, Int64.le_iff_toInt_le] at * <;> grind

/-- Of two scores one may stand before the other. -/
theorem le_total (a b : Score) : (le ascending a b || le ascending b a) = true := by
  cases ascending <;> simp only [le, Int64.le_iff_toInt_le] <;> grind

/-- Of two scores in different places one comes before the other exactly as the stable order has
it. -/
theorem before_iff {x y : Score × Nat} (hne : x.2 ≠ y.2) :
    Before ascending x y ↔ List.zipIdxLE (le ascending) x y = true := by
  cases ascending <;>
    simp only [Before, List.zipIdxLE, le, Int64.le_iff_toInt_le, Int64.lt_iff_toInt_lt,
      ← Int64.toInt_inj] <;>
    grind

/-- Every score has a place of its own. -/
theorem pairwise_place {given : List Score} {placed : List (Score × Nat)}
    (h : placed.Perm given.zipIdx) :
    placed.Pairwise (fun x y => x.2 ≠ y.2) := by
  have hnodup : (given.zipIdx.map Prod.snd).Nodup := by
    rw [List.zipIdx_map_snd]
    exact List.nodup_range'
  exact List.pairwise_map.1 ((h.map Prod.snd).nodup_iff.2 hnodup)

/-- No two scores come before each other. -/
theorem not_before_of_before {x y : Score × Nat} (h : Before ascending x y) :
    ¬Before ascending y x := by
  cases ascending <;>
    simp only [Before, Int64.lt_iff_toInt_lt, ← Int64.toInt_inj] at * <;> grind

/-- There is just one ranking of given scores. -/
theorem ranks_iff {given ranking : List Score} :
    Ranks ascending given ranking ↔ ranking = sorted ascending given := by
  let placed := given.zipIdx.mergeSort (List.zipIdxLE (le ascending))
  have hperm : placed.Perm given.zipIdx := List.mergeSort_perm ..
  have hbefore : placed.Pairwise (Before ascending) := by
    have hle : placed.Pairwise (fun x y => List.zipIdxLE (le ascending) x y = true) :=
      List.pairwise_mergeSort (List.zipIdxLE_trans le_trans) (List.zipIdxLE_total le_total)
        given.zipIdx
    refine (hle.and (pairwise_place hperm)).imp fun {x y} h => ?_
    exact (before_iff h.2).2 h.1
  have hplaced : placed.map Prod.fst = sorted ascending given := by
    rw [sorted_eq]
    exact List.mergeSort_zipIdx
  constructor
  · rintro ⟨placed', hperm', hbefore', rfl⟩
    rw [← hplaced]
    refine congrArg (List.map Prod.fst)
      (List.Perm.eq_of_pairwise ?_ hbefore' hbefore (hperm'.trans hperm.symm))
    intro x y _ _ hxy hyx
    exact absurd hyx (not_before_of_before hxy)
  · rintro rfl
    exact ⟨placed, hperm, hbefore, hplaced⟩

/-- The highest first; two seats with equal scores stay in their order. -/
example : Ranks false [⟨⟨0⟩, 3⟩, ⟨⟨1⟩, 5⟩, ⟨⟨2⟩, 3⟩] [⟨⟨1⟩, 5⟩, ⟨⟨0⟩, 3⟩, ⟨⟨2⟩, 3⟩] :=
  ranks_iff.2 (by cbv)

end Score

/-- One score after the other is computed. -/
theorem Score.step_eq_ok_iff {seat : Seat} {first : Result Int64} {rest : Result (List Score)}
    {given : List Score} :
    (do
      let score ← first
      return ({ seat, score } : Score) :: (← rest)) = .ok given ↔
      ∃ x xs, (x.seat = seat ∧ first = .ok x.score) ∧ rest = .ok xs ∧ given = x :: xs := by
  constructor
  · intro h
    obtain ⟨score, hscore, h⟩ := bind_eq_ok h
    obtain ⟨xs, hxs, h⟩ := bind_eq_ok h
    exact ⟨⟨seat, score⟩, xs, ⟨rfl, hscore⟩, hxs, (Except.ok.inj h).symm⟩
  · rintro ⟨x, xs, ⟨rfl, rfl⟩, rfl, rfl⟩
    rfl

/-! ## Outcomes -/

/-- What an end condition declares. -/
inductive Ending.Declares (v : View) : Ending → Outcome → Prop
  | draw : Declares v .draw .draw
  | lossAll : Declares v .lossAll .lossAll
  | win {winner : SeatRef} {seat : Seat} (hwinner : winner.resolve v = .ok seat) :
    Declares v (.win winner) (.win seat none)
  /-- Every seat, in seat order, is given the value of the expression for it. -/
  | score {value : Expr} {ascending : Bool} {given ranking : List Score}
    (hgiven : List.Forall₂ (fun seat x => x.seat = seat ∧
      value.evalInt { v.ofSeat seat with actor := seat } = .ok x.score)
        (Seat.all v.state.seatCount) given)
    (hranks : Score.Ranks ascending given ranking) :
    Declares v (.score value ascending) (.score ranking)

/-- The scores of seats are computed one by one, in the order of the seats. -/
theorem Ending.scores_eq_ok_iff {value : Expr} {v : View} {seats : List Seat} {given : List Score} :
    scores value v seats = .ok given ↔ List.Forall₂ (fun seat x => x.seat = seat ∧
      value.evalInt { v.ofSeat seat with actor := seat } = .ok x.score) seats given := by
  induction seats generalizing given with
  | nil => rw [scores, List.forall₂_nil_left_iff, Except.ok.injEq, eq_comm]
  | cons seat seats ih => simp only [scores, Score.step_eq_ok_iff, ih, List.forall₂_cons_left_iff]

/-- What an ending comes to is what it declares. -/
theorem Ending.outcome_eq_ok_iff {v : View} {e : Ending} {o : Outcome} :
    e.outcome v = .ok o ↔ e.Declares v o := by
  constructor
  · intro h
    cases e with
    | draw =>
      cases h
      exact .draw
    | lossAll =>
      cases h
      exact .lossAll
    | win winner =>
      obtain ⟨seat, hseat, h⟩ := bind_eq_ok h
      cases h
      exact .win hseat
    | score value ascending =>
      obtain ⟨given, hgiven, h⟩ := bind_eq_ok h
      cases h
      exact .score (scores_eq_ok_iff.1 hgiven) (Score.ranks_iff.2 rfl)
  · intro h
    cases h with
    | draw => rfl
    | lossAll => rfl
    | win hwinner => exact bind_ok hwinner rfl
    | score hgiven hranks =>
      cases Score.ranks_iff.1 hranks
      exact bind_ok (scores_eq_ok_iff.2 hgiven) rfl

namespace Victory

/-- The margins in the order of the declaration, each with its value, are ranked by it, the highest
first. -/
def Ranks (y : Victory) (v : View) (ranking : List Score) : Prop :=
  ∃ given, List.Forall₂
    (fun m x => x.seat = m.seat ∧ m.value.evalInt (v.ofSeat m.seat) = .ok x.score)
    y.margins given ∧ Score.Ranks false given ranking

/-- The margins of a victory are computed one by one, in the order of their declaration. -/
theorem marginScores_eq_ok_iff {v : View} {margins : List Margin} {given : List Score} :
    marginScores v margins = .ok given ↔ List.Forall₂ (fun m x => x.seat = m.seat ∧
      m.value.evalInt (v.ofSeat m.seat) = .ok x.score) margins given := by
  induction margins generalizing given with
  | nil => rw [marginScores, List.forall₂_nil_left_iff, Except.ok.injEq, eq_comm]
  | cons m margins ih =>
    simp only [marginScores, Score.step_eq_ok_iff, inPredicate_eq_ok_iff, ih,
      List.forall₂_cons_left_iff]

/-- The outcome on a checkpoint. -/
def outcome (y : Victory) (v : View) (c : Checkpoint) : Result Outcome := do
  let ranking := Score.highestFirst (← marginScores v y.margins)
  return .win (winner c ranking v.state.active)
    (some { checkpoint := c.id, timing := c.timing, ranking })

/-- The outcome on a checkpoint is a win by the ranking of the margins. -/
theorem outcome_eq_ok_iff {y : Victory} {v : View} {c : Checkpoint} {o : Outcome} :
    y.outcome v c = .ok o ↔ ∃ ranking, y.Ranks v ranking ∧
      o = .win (winner c ranking v.state.active)
        (some { checkpoint := c.id, timing := c.timing, ranking }) := by
  constructor
  · intro h
    obtain ⟨given, hgiven, h⟩ := bind_eq_ok h
    cases h
    exact ⟨_, ⟨given, marginScores_eq_ok_iff.1 hgiven, Score.ranks_iff.2 rfl⟩, rfl⟩
  · rintro ⟨ranking, ⟨given, hgiven, hranks⟩, rfl⟩
    cases Score.ranks_iff.1 hranks
    exact bind_ok (marginScores_eq_ok_iff.2 hgiven) rfl

/-- The outcome of a victory is a search among its checkpoints. -/
theorem firstOutcome?_eq_ok_iff {y : Victory} {v : View} {cs : List Checkpoint}
    {o : Option Outcome} :
    y.firstOutcome? v cs = .ok o ↔ Finds (fun c => c.when.eval v) (y.outcome v) cs o := by
  induction cs with
  | nil => rw [firstOutcome?, finds_nil, Except.ok.injEq, eq_comm]
  | cons c cs ih =>
    have hstep : y.firstOutcome? v (c :: cs) =
        (do if ← inPredicate (.checkpoint c.id) (c.when.eval v) then return some (← y.outcome v c)
            else y.firstOutcome? v cs) := by
      simp only [firstOutcome?, outcome, bind_assoc, pure_bind]
    rw [hstep, search_step_eq_ok_iff, finds_cons, ih]

/-- How a game has been decided by a victory, if it has: by the first checkpoint that counts at any
time and holds, or else by the first final one that does. -/
inductive Decides (y : Victory) (v : View) : Option Outcome → Prop
  /-- The seat that is named wins, or else the one with the highest margin, or else the active
  one. -/
  | during {c : Checkpoint} {ranking : List Score}
    (hfirst : FirstHolding (fun c => c.when.eval v) (y.checkpoints.filter (·.timing = .during)) c)
    (hranks : y.Ranks v ranking) :
    Decides y v (some (.win ((c.seat.or (ranking.head?.map Score.seat)).getD v.state.active)
      (some { checkpoint := c.id, timing := .during, ranking })))
  /-- The seat with the highest margin wins, or else the one that is named, or else the active
  one. -/
  | final {c : Checkpoint} {ranking : List Score}
    (hduring : NoneHolds (fun c => c.when.eval v) (y.checkpoints.filter (·.timing = .during)))
    (hfirst : FirstHolding (fun c => c.when.eval v) (y.checkpoints.filter (·.timing = .final)) c)
    (hranks : y.Ranks v ranking) :
    Decides y v (some (.win (((ranking.head?.map Score.seat).or c.seat).getD v.state.active)
      (some { checkpoint := c.id, timing := .final, ranking })))
  | undecided (hnone : NoneHolds (fun c => c.when.eval v) y.checkpoints) : Decides y v none

/-- None of the checkpoints holds in their order exactly if none holds as they are declared. -/
theorem noneHolds_ordered {y : Victory} {test : Checkpoint → Result Bool} :
    NoneHolds test y.ordered ↔ NoneHolds test y.checkpoints := by
  refine forall_congr' fun c => imp_congr_left ?_
  rw [ordered, List.mem_append, List.mem_filter, List.mem_filter, ← and_or_left,
    and_iff_left_iff_imp]
  intro _
  cases c.timing <;> simp

/-- A checkpoint that is found among those of one timing has that timing. -/
theorem timing_of_firstHolding {y : Victory} {test : Checkpoint → Result Bool}
    {timing : CheckpointTiming}
    {c : Checkpoint} (h : FirstHolding test (y.checkpoints.filter (·.timing = timing)) c) :
    c.timing = timing :=
  of_decide_eq_true (List.mem_filter.1 h.mem).2

/-- The search goes through the checkpoints in the order in which they decide. -/
theorem finds_ordered_iff {y : Victory} {v : View} {o : Option Outcome} :
    Finds (fun c => c.when.eval v) (y.outcome v) y.ordered o ↔ y.Decides v o := by
  constructor
  · intro h
    cases o with
    | none => exact .undecided (noneHolds_ordered.1 h)
    | some outcome =>
      obtain ⟨c, hc, houtcome⟩ := h
      obtain ⟨ranking, hranks, rfl⟩ := outcome_eq_ok_iff.1 houtcome
      rcases firstHolding_append.1 hc with hfirst | ⟨hduring, hfirst⟩
      · rw [winner, timing_of_firstHolding hfirst]
        exact .during hfirst hranks
      · rw [winner, timing_of_firstHolding hfirst]
        exact .final hduring hfirst hranks
  · intro h
    cases h with
    | undecided hnone => exact noneHolds_ordered.2 hnone
    | during hfirst hranks =>
      refine ⟨_, firstHolding_append.2 (.inl hfirst), outcome_eq_ok_iff.2 ⟨_, hranks, ?_⟩⟩
      rw [winner, timing_of_firstHolding hfirst]
    | final hduring hfirst hranks =>
      refine ⟨_, firstHolding_append.2 (.inr ⟨hduring, hfirst⟩),
        outcome_eq_ok_iff.2 ⟨_, hranks, ?_⟩⟩
      rw [winner, timing_of_firstHolding hfirst]

end Victory

/-- The outcome by end conditions is a search among them. -/
theorem EndCondition.firstOutcome?_eq_ok_iff {v : View} {i : Nat} {es : List EndCondition}
    {o : Option Outcome} : firstOutcome? v i es = .ok o ↔
      Finds (fun e => e.when.eval v) (fun e => e.result.outcome v) es o := by
  induction es generalizing i with
  | nil => rw [firstOutcome?, finds_nil, Except.ok.injEq, eq_comm]
  | cons e es ih => rw [firstOutcome?, search_step_eq_ok_iff, finds_cons, ih]

/-! ## Games -/

/-- How a game has been decided, if it has: by the first end condition that holds, or else by the
victory if the game is one of cards that has one. -/
inductive Game.Decides (g : Game) (s : State) : Option Outcome → Prop
  | condition {e : EndCondition} {o : Outcome}
    (hfirst : FirstHolding (fun e => e.when.eval (.ofState g s)) g.definition.endConditions e)
    (hdeclares : e.result.Declares (.ofState g s) o) : Decides g s (some o)
  | victory {y : Victory} {o : Option Outcome}
    (hnone : NoneHolds (fun e => e.when.eval (.ofState g s)) g.definition.endConditions)
    (hvictory : g.definition.order.cards? >>= CardRules.victory = some y)
    (hdecides : y.Decides (.ofState g s) o) : Decides g s o
  | undecided
    (hnone : NoneHolds (fun e => e.when.eval (.ofState g s)) g.definition.endConditions)
    (hvictory : g.definition.order.cards? >>= CardRules.victory = none) : Decides g s none

/-- A game has the outcome that has been decided. -/
theorem Game.outcome?_eq_ok_iff (g : Game) (s : State) (o : Option Outcome) :
    g.outcome? s = .ok o ↔ g.Decides s o := by
  have hconditions : ∀ first,
      EndCondition.firstOutcome? (.ofState g s) 0 g.definition.endConditions = .ok first ↔
        Finds (fun e => e.when.eval (.ofState g s)) (fun e => e.result.outcome (.ofState g s))
        g.definition.endConditions first := fun _ => EndCondition.firstOutcome?_eq_ok_iff
  constructor
  · intro h
    obtain ⟨first, hfirst, h⟩ := bind_eq_ok h
    replace hfirst := (hconditions first).1 hfirst
    cases first with
    | some outcome =>
      cases h
      obtain ⟨e, hfirst, houtcome⟩ := hfirst
      exact .condition hfirst (Ending.outcome_eq_ok_iff.1 houtcome)
    | none =>
      dsimp only at h
      cases hvictory : g.definition.order.cards? >>= CardRules.victory with
      | none =>
        rw [hvictory] at h
        cases h
        exact .undecided hfirst hvictory
      | some y =>
        rw [hvictory] at h
        exact .victory hfirst hvictory
          (Victory.finds_ordered_iff.1 (Victory.firstOutcome?_eq_ok_iff.1 h))
  · intro h
    cases h with
    | condition hfirst hdeclares =>
      exact bind_ok ((hconditions (some _)).2 ⟨_, hfirst, Ending.outcome_eq_ok_iff.2 hdeclares⟩) rfl
    | victory hnone hvictory hdecides =>
      refine bind_ok ((hconditions none).2 hnone) ?_
      dsimp only
      rw [hvictory]
      exact Victory.firstOutcome?_eq_ok_iff.2 (Victory.finds_ordered_iff.2 hdecides)
    | undecided hnone hvictory =>
      refine bind_ok ((hconditions none).2 hnone) ?_
      dsimp only
      rw [hvictory]
      rfl

end Tabletop
