import Tabletop.Proofs.Play.Chronicle
import Tabletop.Proofs.Play.Usage

/-!
# Staying in a phase

A phase is entered, moves are made in it, it is suspended for interrupts and resumed again, and at
last it is left for good.  But an interrupt is left like any other phase: all counts over the phase
start anew, and all lasting effects of that duration end, those of the suspended phase among them.

So a stay in a phase is cut into parts wherever a phase is resumed.  The counts tell what has been
done in the last part, and a limit over the phase holds for each part by itself.

Main statement: `Game.stays_of_played`, with a bivouac in which an alarm lets a seat dig twice.
-/

namespace Tabletop

open Relation (ReflTransGen)

/-! ## Leaving a phase -/

namespace Rules

variable {r : Rules} {p q : Progress} {s : State} {m : Move} {x : Resolution}

/-- Triggers leave the course of the game where it was. -/
theorem Reacts.kept (h : r.Reacts p q) : p.state.Kept q.state := by
  induction h with
  | refl => exact .refl _
  | tail _ hstep ih =>
    cases hstep with
    | effects hruns => exact ih.trans hruns.kept
    | fire f => exact ih

/-- When lasting effects have ended, all others are still active. -/
theorem lasting_of_expire {d : Duration} (h : r.expire d p = .ok q) :
    q.state.lasting = p.state.lasting.filter (fun l => l.duration ≠ d) :=
  (tearDown_reacts h).kept.lasting

/-- Leaving a phase ends the lasting effects of that duration, and no others. -/
theorem lasting_of_leavePhase (h : r.leavePhase p = .ok q) :
    q.state.lasting = p.state.lasting.filter (fun l => l.duration ≠ .phase) := by
  obtain ⟨p₁, hdispatch, h⟩ := bind_eq_ok h
  obtain ⟨p₂, hexpire, h⟩ := bind_eq_ok h
  obtain rfl := Except.ok.inj h
  have hexpired := lasting_of_expire hexpire
  rw [(dispatch_reacts hdispatch).kept.lasting] at hexpired
  exact hexpired

/-- Leaving a phase starts the counts over the phase anew, and no others. -/
theorem usageOf_of_leavePhase (h : r.leavePhase p = .ok q) (action : ActionId) :
    q.state.usageOf action = (p.state.usageOf action).reset .phase := by
  obtain ⟨p', hripples, rfl⟩ := leavePhase_eq_ok h
  rw [← State.usageOf_congr hripples.usage]
  exact p'.state.usageOf_resetUsage .phase action

/-- Nothing has been counted over the phase. -/
def Fresh (p : Progress) : Prop := ∀ action, (p.state.usageOf action).phase = 0

/-- Nothing is counted over a phase that has just been left. -/
theorem fresh_of_leavePhase (h : r.leavePhase p = .ok q) : Fresh q := by
  intro action
  rw [usageOf_of_leavePhase h]
  rfl

/-- Going on to the next decision counts nothing over a phase. -/
theorem Onwards.fresh (h : r.Onwards p q) (hp : Fresh p) : Fresh q := by
  intro action
  rcases (h.eases action).within .phase with hsame | hanew
  · exact hsame.trans (hp action)
  · exact hanew

/-- Nothing is counted over a phase when a turn has ended. -/
theorem fresh_of_endTurn (h : r.endTurn p = .ok q) : Fresh q := by
  obtain ⟨p', hleave, h⟩ := bind_eq_ok h
  exact (closeTurn_onwards h).fresh (fresh_of_leavePhase hleave)

/-- A transition out of a phase on which nothing is suspended leaves it for good, unless it passes
over a seat within the turn. -/
theorem fresh_of_transition (hnone : p.state.suspended = []) (h : r.transition p = .ok q) :
    Fresh q ∧ (r.definition.order.cards?.isSome = true → q.state.turn ≠ p.state.turn) ∨
      r.definition.order.cards?.isSome = true ∧ p.state.SameMoment q.state := by
  have hskipped := State.SameMoment.skipStuckSeat p.state r.definition
  cases transits_of_transition h with
  | resume hlast =>
    rw [hnone] at hlast
    cases hlast
  | skip _ hcards _ h =>
    subst h
    exact .inr ⟨hcards, hskipped⟩
  | skipAll _ _ _ h =>
    exact .inl ⟨fresh_of_endTurn h, fun _ => ((endTurn_nextTurn h).of_turn hskipped.turn).turn_ne⟩
  | enter _ hcards hleave hafter h =>
    have hfresh := (enterPhase_onwards hafter h).fresh (fresh_of_leavePhase hleave)
    exact .inl ⟨hfresh, fun hsome => absurd hsome (by simp [hcards])⟩
  | close _ hcards hleave _ h =>
    have hfresh := (closeTurn_onwards h).fresh (fresh_of_leavePhase hleave)
    exact .inl ⟨hfresh, fun hsome => absurd hsome (by simp [hcards])⟩

/-- What resuming a phase does to the books: as much as leaving one. -/
theorem books_of_resume (hsuspended : p.state.suspended ≠ []) (h : r.transition p = .ok q) :
    q.state.lasting = p.state.lasting.filter (fun l => l.duration ≠ .phase) ∧
      ∀ action, q.state.usageOf action = (p.state.usageOf action).reset .phase := by
  cases transits_of_transition h with
  | resume _ hleave h =>
    have hlasting := lasting_of_leavePhase hleave
    have husage := usageOf_of_leavePhase hleave
    subst h
    exact ⟨hlasting, husage⟩
  | skip hnone => exact absurd hnone hsuspended
  | skipAll hnone => exact absurd hnone hsuspended
  | enter hnone => exact absurd hnone hsuspended
  | close hnone => exact absurd hnone hsuspended

end Rules

/-- Starting the count over the phase anew changes nothing exactly if nothing has been counted. -/
theorem Usage.reset_phase_eq_self {u : Usage} : u.reset .phase = u ↔ u.phase = 0 := by
  constructor
  · intro h
    rw [← h]
    rfl
  · intro h
    rw [Usage.reset, ← h]

/-! ## Stays -/

/-- How often moves take an action. -/
def Move.uses (moves : List Move) (action : ActionId) : Nat :=
  (moves.flatMap Move.actions).count action

namespace Move

/-- Moves that come later use an action in addition to those before. -/
@[simp] theorem uses_append (moves later : List Move) (action : ActionId) :
    uses (moves ++ later) action = uses moves action + uses later action := by
  simp [uses, List.count_append]

/-- A single move uses an action as often as it takes it. -/
@[simp] theorem uses_singleton (m : Move) (action : ActionId) :
    uses [m] action = m.actions.count action := by
  simp [uses]

end Move

/-- What has been done in a phase since it was entered. -/
structure Stay where
  /-- The moves before the last part of the stay. -/
  earlier : List Move := []
  /-- The moves since a phase has been resumed, or since the phase was entered. -/
  recent : List Move := []
  /-- How often a phase has been resumed. -/
  resumed : Nat := 0
  deriving Inhabited

namespace Stay

/-- The chronicle of the stay in a phase.  A move that closes the turn ends it, and so does leaving
the phase with nothing suspended on it, but passing over a seat within a turn does not. -/
def chronicle (d : Definition) : Chronicle Stay where
  first := {}
  move a s m t := if t.turn = s.turn then { a with recent := a.recent ++ [m] } else {}
  pass a s t :=
    if s.suspended ≠ [] then
      { earlier := a.earlier ++ a.recent, recent := [], resumed := a.resumed + 1 }
    else if d.order.cards?.isSome ∧ t.turn = s.turn then a
    else {}

/-- The counts over the phase are those of the last part of the stay. -/
def Counted (a : Stay) (s : State) : Prop :=
  ∀ action, (s.usageOf action).phase = UInt32.ofNat (Move.uses a.recent action)

/-- No move of the stay takes an action in both of its parts. -/
def Apart (a : Stay) (action : ActionId) : Prop :=
  ∀ m ∈ a.earlier ++ a.recent, m.actions ≠ [action, action]

/-- A limit is kept in the last part of the stay, and on average in the parts before. -/
structure Within (a : Stay) (action : ActionId) (max : Nat) : Prop where
  recent : Move.uses a.recent action ≤ max
  earlier : Move.uses a.earlier action ≤ a.resumed * max

/-- A stay in which nothing has been done keeps every limit. -/
theorem within_nil (action : ActionId) (max : Nat) : ({} : Stay).Within action max :=
  ⟨Nat.zero_le _, Nat.zero_le _⟩

/-- Where a phase is resumed, the last part of the stay comes to those before. -/
theorem Within.resume {a : Stay} {action : ActionId} {max : Nat} (h : a.Within action max) :
    Within { earlier := a.earlier ++ a.recent, recent := [], resumed := a.resumed + 1 }
      action max where
  recent := Nat.zero_le _
  earlier := by
    rw [Move.uses_append, Nat.add_one_mul]
    exact Nat.add_le_add h.earlier h.recent

/-- All limits over the phase are kept, but for actions that a move has taken in both of its
parts. -/
def Bounded (a : Stay) (d : Definition) : Prop :=
  ∀ b ∈ d.actions, ∀ l ∈ b.limits, l.scope = .phase → a.Apart b.id → a.Within b.id l.max.toNat

/-- A stay in which nothing has been done is bounded. -/
theorem bounded_nil (d : Definition) : ({} : Stay).Bounded d := fun _ _ _ _ _ _ => within_nil _ _

section chronicle

variable {d : Definition} {a : Stay} {s t : State} {m : Move}

/-- A move in the same turn is one more of the stay. -/
theorem chronicle_move_same (h : t.turn = s.turn) :
    (chronicle d).move a s m t = { a with recent := a.recent ++ [m] } := if_pos h

/-- A move that closes the turn ends the stay. -/
theorem chronicle_move_next (h : t.turn ≠ s.turn) : (chronicle d).move a s m t = {} := if_neg h

/-- A phase that is resumed opens a new part of the stay. -/
theorem chronicle_pass_resume (h : s.suspended ≠ []) :
    (chronicle d).pass a s t =
      { earlier := a.earlier ++ a.recent, recent := [], resumed := a.resumed + 1 } := if_pos h

/-- Passing over a seat within a turn leaves the stay. -/
theorem chronicle_pass_skip (hnone : s.suspended = [])
    (h : d.order.cards?.isSome = true ∧ t.turn = s.turn) : (chronicle d).pass a s t = a := by
  show ite _ _ _ = _
  rw [if_neg (not_not.2 hnone), if_pos h]

/-- Leaving a phase that nothing is suspended on ends the stay. -/
theorem chronicle_pass_leave (hnone : s.suspended = [])
    (h : ¬(d.order.cards?.isSome = true ∧ t.turn = s.turn)) : (chronicle d).pass a s t = {} := by
  show ite _ _ _ = _
  rw [if_neg (not_not.2 hnone), if_neg h]

end chronicle

variable {r : Rules} {a : Stay} {s t : State} {m : Move} {x : Resolution} {p p' q : Progress}

/-- A move is counted in the last part of the stay, unless it closes the turn. -/
theorem Counted.move (h : a.Counted s) (hx : r.resolve s m = .ok x)
    (hcarried : r.carryOut m s.active x = .ok p) (hout : r.SetsOut m p p') :
    ((chronicle r.definition).move a s m p'.state).Counted p'.state := by
  intro action
  obtain ⟨pushed, hpushed⟩ := Rules.carryOut_interrupted hx hcarried
  have hfollowed := State.SameMoment.afterMove p.state r.definition m
  have hturn := hfollowed.turn.trans hpushed.turn
  rcases Rules.setsOut_iff.1 hout with ⟨-, hout⟩ | ⟨-, rfl⟩
  · have hnext := (Rules.endTurn_nextTurn hout).of_turn hturn
    rw [chronicle_move_next hnext.turn_ne]
    exact Rules.fresh_of_endTurn hout action
  · have hcounted : (p.state.usageOf action).phase =
        (s.usageOf action).phase + UInt32.ofNat (m.actions.count action) := by
      rw [Rules.usageOf_of_carryOut hx hcarried]
      exact Usage.within_iterate_record .phase _ _
    show ((p.state.afterMove r.definition m).2.usageOf action).phase = _
    rw [Progress.withState, chronicle_move_same hturn, Move.uses_append, Move.uses_singleton,
      UInt32.ofNat_add, ← h action, ← hcounted, State.usageOf_congr hfollowed.usage]

/-- The counts over the phase are still those of the last part of the stay after a transition. -/
theorem Counted.pass (h : a.Counted p.state) (htransition : r.transition p = .ok q) :
    ((chronicle r.definition).pass a p.state q.state).Counted q.state := by
  intro action
  by_cases hnone : p.state.suspended = []
  · rcases Rules.fresh_of_transition hnone htransition with ⟨hfresh, hturn⟩ | ⟨hcards, hsame⟩
    · rw [chronicle_pass_leave hnone (fun hstays => hturn hstays.1 hstays.2)]
      exact hfresh action
    · rw [chronicle_pass_skip hnone ⟨hcards, hsame.turn⟩, State.usageOf_congr hsame.usage]
      exact h action
  · rw [chronicle_pass_resume hnone, (Rules.books_of_resume hnone htransition).2]
    rfl

/-- A move that is made within a limit leaves the last part of the stay within the limit, unless it
takes the action in both of its parts. -/
theorem uses_le_of_resolve (h : a.Counted s) (hx : r.resolve s m = .ok x) {b : Action}
    (hb : r.definition.action? b.id = some b) {l : UsageLimit} (hl : l ∈ b.limits)
    (hscope : l.scope = .phase) (hwithin : Move.uses a.recent b.id ≤ l.max.toNat)
    (hapart : m.actions ≠ [b.id, b.id]) :
    Move.uses (a.recent ++ [m]) b.id ≤ l.max.toNat := by
  have hfew := m.count_actions_le b.id
  have honce : m.actions.count b.id ≠ 2 := fun htwice =>
    hapart (Move.count_actions_eq_two_iff.1 htwice)
  rw [Move.uses_append, Move.uses_singleton]
  by_cases htaken : m.actions.count b.id = 0
  · omega
  · have hleft :=
      Rules.lt_max_of_resolve hx hb (List.count_pos_iff.1 (Nat.pos_of_ne_zero htaken)) hl
    rw [hscope, Usage.within, h b.id, UInt32.lt_iff_toNat_lt, UInt32.toNat_ofNat'] at hleft
    have hmax := l.max.toNat_lt
    omega

/-- A move keeps a stay bounded, as its actions have been checked against the counts. -/
theorem Bounded.move (hids : (r.definition.actions.map (·.id)).Nodup) (h : a.Bounded r.definition)
    (hcounted : a.Counted s) (hx : r.resolve s m = .ok x) :
    ((chronicle r.definition).move a s m t).Bounded r.definition := by
  by_cases hturn : t.turn = s.turn
  · rw [chronicle_move_same hturn]
    intro b hb l hl hscope hapart
    have hbefore : a.Apart b.id := fun m' hm' => hapart m' (by
      rw [← List.append_assoc]
      exact List.mem_append_left _ hm')
    have hlast : m.actions ≠ [b.id, b.id] := hapart m (by simp)
    obtain ⟨hrecent, hearlier⟩ := h b hb l hl hscope hbefore
    have haction := Definition.action?_of_mem hids hb
    exact ⟨uses_le_of_resolve hcounted hx haction hl hscope hrecent hlast, hearlier⟩
  · rw [chronicle_move_next hturn]
    exact bounded_nil _

/-- A transition keeps a stay bounded. -/
theorem Bounded.pass {d : Definition} (h : a.Bounded d) : ((chronicle d).pass a s t).Bounded d := by
  by_cases hnone : s.suspended = []
  · by_cases hstays : d.order.cards?.isSome = true ∧ t.turn = s.turn
    · rw [chronicle_pass_skip hnone hstays]
      exact h
    · rw [chronicle_pass_leave hnone hstays]
      exact bounded_nil d
  · rw [chronicle_pass_resume hnone]
    intro b hb l hl hscope hapart
    refine (h b hb l hl hscope (fun m hm => hapart m ?_)).resume
    rw [List.append_nil]
    exact hm

end Stay

namespace Game

variable {g : Game} {moves : List Move} {s : State} {stay : Stay}

/-- The moves of a stay are the last ones that have been made. -/
theorem Told.stay_suffix (h : g.Told (Stay.chronicle g.definition) moves stay s) :
    stay.earlier ++ stay.recent <:+ moves := by
  refine h.invariant (P := fun moves stay _ => stay.earlier ++ stay.recent <:+ moves) ?_ ?_ ?_ ?_
  · exact fun _ => List.suffix_refl []
  · intro r moves stay s m x p p' _ _ _ _ hsuffix
    by_cases hturn : p'.state.turn = s.turn
    · rw [Stay.chronicle_move_same hturn, ← List.append_assoc]
      obtain ⟨before, rfl⟩ := hsuffix
      exact ⟨before, by simp⟩
    · rw [Stay.chronicle_move_next hturn]
      exact List.nil_suffix
  · intro r moves stay p q _ _ _ hsuffix
    by_cases hnone : p.state.suspended = []
    · by_cases hstays : g.definition.order.cards?.isSome = true ∧ q.state.turn = p.state.turn
      · rw [Stay.chronicle_pass_skip hnone hstays]
        exact hsuffix
      · rw [Stay.chronicle_pass_leave hnone hstays]
        exact List.nil_suffix
    · rw [Stay.chronicle_pass_resume hnone, List.append_nil]
      exact hsuffix
  · exact id

/-- The counts tell the last part of a stay, and the limits over the phase are kept in each part. -/
theorem Told.stay_bounded (hids : (g.definition.actions.map (·.id)).Nodup)
    (h : g.Told (Stay.chronicle g.definition) moves stay s) :
    stay.Counted s ∧ stay.Bounded g.definition := by
  refine h.invariant (P := fun _ stay s => stay.Counted s ∧ stay.Bounded g.definition) ?_ ?_ ?_ ?_
  · intro count seed s hstart
    exact ⟨fun action => within_of_start hstart action .phase, Stay.bounded_nil _⟩
  · rintro r moves stay s m x p p' rfl hx hcarried hout ⟨hcounted, hbounded⟩
    exact ⟨hcounted.move hx hcarried hout, hbounded.move hids hcounted hx⟩
  · rintro r moves stay p q rfl - htransition ⟨hcounted, hbounded⟩
    exact ⟨hcounted.pass htransition, hbounded.pass⟩
  · exact id

/-- Suppose that all actions have ids of their own.  The counts over the phase are those of the
moves since the phase was entered or a phase was last resumed.  If no move of the stay takes an
action in both of its parts, a limit over the phase is kept in the last part of the stay, and the
whole stay keeps to it as often as there are parts; it goes beyond the limit only if a phase has
been resumed since the action was taken.  Where a phase is resumed, exactly the lasting effects of
that duration end and exactly the counts over the phase start anew; so the books are as they were
exactly if there was nothing of either in them. -/
theorem stays_of_played (hids : (g.definition.actions.map (·.id)).Nodup) (h : g.Played moves s) :
    (∃ stay, g.Told (Stay.chronicle g.definition) moves stay s) ∧
      (∀ stay, g.Told (Stay.chronicle g.definition) moves stay s →
        stay.earlier ++ stay.recent <:+ moves ∧
        (∀ action, (s.usageOf action).phase = UInt32.ofNat (Move.uses stay.recent action)) ∧
        ∀ a ∈ g.definition.actions, ∀ l ∈ a.limits, l.scope = .phase → stay.Apart a.id →
          Move.uses stay.recent a.id ≤ l.max.toNat ∧
          Move.uses (stay.earlier ++ stay.recent) a.id ≤ (stay.resumed + 1) * l.max.toNat ∧
          (l.max.toNat < Move.uses (stay.earlier ++ stay.recent) a.id →
            stay.resumed ≠ 0 ∧ Move.uses stay.earlier a.id ≠ 0)) ∧
      ∀ (r : Rules) (p q : Progress), r.game = g → p.state.suspended ≠ [] → r.transition p = .ok q →
        q.state.lasting = p.state.lasting.filter (fun l => l.duration ≠ .phase) ∧
        (∀ action, q.state.usageOf action = (p.state.usageOf action).reset .phase) ∧
        ((q.state.lasting = p.state.lasting ∧
            ∀ action, q.state.usageOf action = p.state.usageOf action) ↔
          (∀ l ∈ p.state.lasting, l.duration ≠ .phase) ∧
            ∀ action, (p.state.usageOf action).phase = 0) := by
  refine ⟨h.exists_told _, fun stay htold => ?_, fun r p q _ hsuspended htransition => ?_⟩
  · obtain ⟨hcounted, hbounded⟩ := htold.stay_bounded hids
    refine ⟨htold.stay_suffix, hcounted, fun a ha l hl hscope hapart => ?_⟩
    obtain ⟨hrecent, hearlier⟩ := hbounded a ha l hl hscope hapart
    rw [Move.uses_append, Nat.add_one_mul]
    refine ⟨hrecent, Nat.add_le_add hearlier hrecent, fun hbeyond => ?_⟩
    have htaken : Move.uses stay.earlier a.id ≠ 0 := by omega
    refine ⟨fun hnever => htaken ?_, htaken⟩
    rw [hnever, Nat.zero_mul] at hearlier
    exact Nat.le_zero.1 hearlier
  · obtain ⟨hlasting, husage⟩ := Rules.books_of_resume hsuspended htransition
    refine ⟨hlasting, husage, ?_⟩
    simp only [hlasting, husage, List.filter_eq_self, decide_eq_true_eq, Usage.reset_phase_eq_self]

end Game

/-! ## A bivouac -/

/-- A game in which a trench can be dug once in a camp, and a scout may raise an alarm. -/
def Definition.bivouac : Definition :=
  { Definition.minimal "bivouac" with
    turn := { phases := [⟨"camp"⟩], interrupts := [⟨"alarm"⟩] }
    globalVars := [.ofInt "trenches" 0 0 9]
    actions := [
      { id := "dig", phases := ["camp"], limits := [{ scope := .phase, max := 1 }]
        lasting := [{
          id := "trench", duration := .phase
          setup := [.addGlobal "trenches" 1], teardown := [.addGlobal "trenches" (-1)] }] },
      { id := "scout", phases := ["camp"], effects := [.pushInterruptPhase "alarm"] }] }

/-- The rules of that game, under the usual limits. -/
def Rules.bivouac : Rules := { game := .ofDefinition .bivouac }

/-- Where two seats start that game. -/
def State.bivouac : State := (Rules.bivouac.game.start 2 0).toOption.getD default

/-- Where a trench has been dug. -/
def State.entrenched : State :=
  ((Rules.bivouac.makeMove .bivouac (.named "dig")).toOption.map (·.state)).getD default

/-- The alarm has been raised. -/
def Progress.alarm : Progress :=
  let scout : Move := .named "scout"
  let alarm := (Rules.bivouac.resolve .entrenched scout).toOption.bind (fun x =>
    (Rules.bivouac.carryOut scout State.entrenched.active x).toOption)
  alarm.getD default

/-- The moves of a seat that digs again when the alarm is over. -/
def Move.bivouac : List Move := [.named "dig", .named "scout", .named "dig"]

/-- The stay in the camp, and where it comes to. -/
def Stay.bivouac : Stay × State :=
  let chronicle := Stay.chronicle .bivouac
  (Rules.bivouac.retellAll? chronicle Move.bivouac chronicle.first .bivouac).getD default

/-- Two trenches are dug in one stay in the camp, although the limit is one; and the first one is
gone when the alarm is over. -/
theorem Game.stays_of_played_bivouac :
    (∃ stay s, Rules.bivouac.game.Told (Stay.chronicle .bivouac) Move.bivouac stay s ∧
      stay.Apart "dig" ∧ Move.uses stay.recent "dig" ≤ 1 ∧
      Move.uses (stay.earlier ++ stay.recent) "dig" = 2 ∧ stay.resumed ≠ 0 ∧
      (s.usageOf "dig").phase = 1) ∧
    ∃ q, Rules.bivouac.transition .alarm = .ok q ∧ Progress.alarm.state.suspended = ["camp"] ∧
      Progress.alarm.state.lasting.map (·.id) = ["trench"] ∧
      (Progress.alarm.state.usageOf "dig").phase = 1 ∧ q.state.phase = "camp" ∧
      q.state.lasting = [] ∧ (q.state.usageOf "dig").phase = 0 := by
  have hids : (Rules.bivouac.game.definition.actions.map (·.id)).Nodup := by decide +kernel
  have hstart : Rules.bivouac.game.start 2 0 = .ok .bivouac := eq_ok_getD (by decide +kernel)
  have htold : Rules.bivouac.game.Told (Stay.chronicle .bivouac) Move.bivouac Stay.bivouac.1
      Stay.bivouac.2 := Game.told_getD rfl hstart (by decide +kernel)
  obtain ⟨-, hstays, hresumes⟩ := Game.stays_of_played hids htold.played
  obtain ⟨-, hcounts, hlimits⟩ := hstays _ htold
  have hapart : Stay.bivouac.1.Apart "dig" := by
    unfold Stay.Apart
    decide +kernel
  have htwice : Move.uses (Stay.bivouac.1.earlier ++ Stay.bivouac.1.recent) "dig" = 2 := by
    decide +kernel
  obtain ⟨hrecent, -, hbeyond⟩ :=
    hlimits _ List.mem_cons_self _ (List.mem_singleton_self _) rfl hapart
  have hresumed := (hbeyond (by rw [htwice]; decide)).1
  refine ⟨⟨_, _, htold, hapart, hrecent, htwice, hresumed, ?_⟩, ?_⟩
  · rw [hcounts]
    decide +kernel
  · have hsuspended : Progress.alarm.state.suspended = ["camp"] := by decide +kernel
    obtain ⟨q, hq⟩ : ∃ q, Rules.bivouac.transition .alarm = .ok q :=
      exists_ok_of_isOk (by decide +kernel)
    have hcamp : (Rules.bivouac.transition .alarm).toOption.map (·.state.phase) = some "camp" := by
      decide +kernel
    rw [hq] at hcamp
    obtain ⟨hlasting, husage, -⟩ := hresumes _ _ q rfl (by simp [hsuspended]) hq
    refine ⟨q, hq, hsuspended, by decide +kernel, by decide +kernel, Option.some.inj hcamp, ?_, ?_⟩
    · rw [hlasting]
      decide +kernel
    · rw [husage]
      rfl

end Tabletop
