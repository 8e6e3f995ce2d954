import Tabletop.Proofs.Board.Dict
import Tabletop.Proofs.Play.Compound
import Tabletop.Proofs.TurnOrder.Course

/-!
# How often actions are taken

Uses of an action are counted where it is taken, as the host or as the special activity of a move,
and nowhere else; counts over a turn or a phase start anew at its end, counts over the game never
do.  So the count over the game is the number of times that the action has been taken.

Limits are checked when an action is planned.  But a host and its special activity are planned in
one and the same state, before either is counted.  A move that takes one action in both of these
parts takes it twice, although only one use may have been left, and that is the one way to pass a
limit.

Main statement: `Game.limits_of_played`, with a forced march that is one too many.
-/

namespace Tabletop

/-! ## Counts -/

namespace Usage

variable {u v w : Usage}

/-- Recording a use adds one to every count of it. -/
theorem within_record (u : Usage) (scope : UsageScope) :
    u.record.within scope = u.within scope + 1 := by
  cases scope <;> rfl

/-- Every use adds one to the count over every scope. -/
theorem within_iterate_record (scope : UsageScope) :
    ∀ (n : Nat) (u : Usage), (record^[n] u).within scope = u.within scope + UInt32.ofNat n
  | 0, u => by simp
  | n + 1, u => by
    rw [Function.iterate_succ_apply, within_iterate_record scope n, within_record, UInt32.add_assoc,
      UInt32.ofNat_add, UInt32.add_comm 1]
    rfl

section

variable {before after max : UInt32} {n : Nat}

/-- A count that has not passed a limit passes it exactly if two uses are added where one was left,
unless the count starts anew. -/
theorem lt_iff_of_uses (hn : n ≤ 2) (hleft : n ≠ 0 → before < max)
    (hafter : after = before + UInt32.ofNat n ∨ after = 0) (hwithin : before ≤ max) :
    max < after ↔ n = 2 ∧ before + 1 = max ∧ after ≠ 0 := by
  rcases hafter with rfl | rfl
  · simp only [UInt32.lt_iff_toNat_lt, UInt32.le_iff_toNat_le, ← UInt32.toNat_inj, ne_eq,
      UInt32.toNat_add, UInt32.toNat_ofNat', UInt32.toNat_one, UInt32.toNat_zero] at *
    have hmax := max.toNat_lt
    omega
  · simp

/-- No count passes a limit by more than one. -/
theorem toNat_le_of_uses (hn : n ≤ 2) (hleft : n ≠ 0 → before < max)
    (hafter : after = before + UInt32.ofNat n ∨ after = 0)
    (hwithin : before.toNat ≤ max.toNat + 1) : after.toNat ≤ max.toNat + 1 := by
  rcases hafter with rfl | rfl
  · simp only [UInt32.lt_iff_toNat_lt, UInt32.toNat_add, UInt32.toNat_ofNat'] at *
    omega
  · simp

end

/-- Nothing has been used; counts over a turn or a phase may have started anew. -/
structure Eases (u v : Usage) : Prop where
  game : v.game = u.game
  within : ∀ scope, v.within scope = u.within scope ∨ v.within scope = 0

namespace Eases

/-- A count that is not touched eases. -/
theorem refl (u : Usage) : u.Eases u := ⟨rfl, fun _ => .inl rfl⟩

/-- A count that eases twice eases. -/
theorem trans (h : u.Eases v) (h' : v.Eases w) : u.Eases w where
  game := h'.game.trans h.game
  within scope := by
    rcases h'.within scope with hsame | hanew
    · rw [hsame]
      exact h.within scope
    · exact .inr hanew

/-- A count eases when a turn or a phase starts anew, but that over the game stays. -/
theorem reset {scope : UsageScope} (hscope : scope ≠ .game) (u : Usage) :
    u.Eases (u.reset scope) := by
  cases scope with
  | game => exact absurd rfl hscope
  | turn => exact ⟨rfl, fun scope => by cases scope <;> simp [Usage.reset, Usage.within]⟩
  | phase => exact ⟨rfl, fun scope => by cases scope <;> simp [Usage.reset, Usage.within]⟩

end Eases

end Usage

namespace State

variable {s t : State}

/-- A use is recorded for the action that is taken, and for no other. -/
theorem usageOf_recordUsage (s : State) (taken action : ActionId) :
    (s.recordUsage taken).usageOf action =
      if action = taken then (s.usageOf action).record else s.usageOf action := by
  by_cases h : action = taken
  · subst h
    simp [usageOf, recordUsage]
  · simp [usageOf, recordUsage, Dict.get?_insert_ne _ _ h, h]

/-- The uses of every action are counted anew over a scope that starts anew. -/
theorem usageOf_resetUsage (s : State) (scope : UsageScope) (action : ActionId) :
    (s.resetUsage scope).usageOf action = (s.usageOf action).reset scope := by
  unfold usageOf resetUsage
  rw [Dict.get?_map]
  cases s.usage.get? action with
  | some u => rfl
  | none => cases scope <;> rfl

/-- States with the same records count the same uses. -/
theorem usageOf_congr (h : t.usage = s.usage) (action : ActionId) :
    t.usageOf action = s.usageOf action := by
  unfold usageOf
  rw [h]

/-- Counts ease where nothing is recorded. -/
theorem eases_of_eq (h : t.usage = s.usage) (action : ActionId) :
    (s.usageOf action).Eases (t.usageOf action) := by
  rw [usageOf_congr h]
  exact .refl _

end State

/-! ## A move -/

/-- The actions that a move takes: its host and its special activity. -/
def Move.actions (m : Move) : List ActionId :=
  m.action :: (m.compound.map (·.special.action)).toList

namespace Move

variable {m : Move} {action : ActionId}

/-- A move takes two actions at most. -/
theorem length_actions_le (m : Move) : m.actions.length ≤ 2 := by
  unfold actions
  cases m.compound <;> simp

/-- A move takes an action twice at most. -/
theorem count_actions_le (m : Move) (action : ActionId) : m.actions.count action ≤ 2 :=
  List.count_le_length.trans m.length_actions_le

/-- A move takes an action twice exactly if it takes it in both parts. -/
theorem count_actions_eq_two_iff : m.actions.count action = 2 ↔ m.actions = [action, action] := by
  constructor
  · intro h
    have hlength : m.actions.length = 2 :=
      Nat.le_antisymm m.length_actions_le (h ▸ List.count_le_length)
    have hall := List.count_eq_length.1 (h.trans hlength.symm)
    have hreplicate := List.eq_replicate_of_mem (fun x hx => (hall x hx).symm)
    rw [hreplicate, hlength]
    rfl
  · intro h
    simp [h]

end Move

namespace Rules

variable {r : Rules} {p q : Progress} {s : State} {m : Move}

/-- What ripples records no use. -/
theorem Ripple.usage (h : r.Ripple p q) : q.state.usage = p.state.usage := by
  cases h with
  | effects hruns => exact hruns.kept.usage
  | fire f => rfl
  | activate l => rfl
  | expire d => rfl

/-- Ripples record no use. -/
theorem Ripples.usage (h : r.Ripples p q) : q.state.usage = p.state.usage := by
  induction h with
  | refl => rfl
  | tail _ hstep ih => exact hstep.usage.trans ih

/-- Each of the actions that are taken is counted once. -/
theorem Takes.usageOf {actions : List ActionId} (h : r.Takes actions p q) (action : ActionId) :
    q.state.usageOf action = Usage.record^[actions.count action] (p.state.usageOf action) := by
  induction h with
  | ripples h => exact State.usageOf_congr h.usage action
  | @use taken actions p p' q h _ ih =>
    have hcounted := p'.state.usageOf_recordUsage taken action
    rw [State.usageOf_congr h.usage] at hcounted
    rw [ih]
    change Usage.record^[actions.count action] ((p'.state.recordUsage taken).usageOf action) = _
    rw [hcounted, List.count_cons]
    by_cases htaken : action = taken
    · subst htaken
      simp
    · simp [htaken, Ne.symm htaken]

/-- On the way to the next decision nothing is used. -/
theorem Onward.eases (h : r.Onward p q) (action : ActionId) :
    (p.state.usageOf action).Eases (q.state.usageOf action) := by
  cases h with
  | ripple h => exact State.eases_of_eq h.usage action
  | reset hscope =>
    change Usage.Eases _ ((p.state.resetUsage _).usageOf action)
    rw [State.usageOf_resetUsage]
    exact .reset hscope _
  | skip => exact State.eases_of_eq (State.SameMoment.skipStuckSeat _ _).usage action
  | startTurn hstart =>
    obtain ⟨phase, -, hstart⟩ := bind_eq_ok hstart
    cases hstart
    exact State.eases_of_eq (State.SameMoment.rotate p.state _).usage action
  | resume phase => exact .refl _
  | @enterPhase phase hafter =>
    exact State.eases_of_eq (State.SameMoment.syncActive { p.state with phase } _).usage action

/-- Going on to the next decision records no use, though counts may start anew. -/
theorem Onwards.eases (h : r.Onwards p q) (action : ActionId) :
    (p.state.usageOf action).Eases (q.state.usageOf action) := by
  induction h with
  | refl => exact .refl _
  | tail _ hstep ih => exact ih.trans (hstep.eases action)

/-- What is resolved takes the actions that the move names, and each of them has been planned. -/
theorem actionsTaken_of_resolve {x : Resolution} (h : r.resolve s m = .ok x) :
    actionsTaken x = m.actions ∧ ∀ action ∈ m.actions, ∃ a move free special plan,
      r.definition.action? action = some a ∧
        Plan.make r.game s move a free special = .ok plan := by
  obtain ⟨a, grant, host, special, y, -, ha, -, -, hhost, hspecial, -, rfl⟩ :=
    resolve_eq_ok_iff.1 h
  have hid : host.action.id = m.action := by
    rw [(Plan.follows_of_make hhost).1]
    simpa using List.find?_some ha
  cases hc : m.compound with
  | none =>
    unfold planCompound at hspecial
    rw [hc] at hspecial
    cases hspecial
    refine ⟨by simp [actionsTaken, Move.actions, hc, hid], fun action haction => ?_⟩
    simp only [Move.actions, hc, Option.map_none, Option.toList_none, List.mem_singleton] at haction
    subst haction
    exact ⟨a, m, _, _, host, ha, hhost⟩
  | some c =>
    obtain ⟨b, plan, hb, hplan, rfl, -⟩ := planCompound_of_compound hc hspecial
    have hsid : plan.action.id = c.special.action := by
      rw [(Plan.follows_of_make hplan).1]
      simpa using List.find?_some hb
    refine ⟨by simp [actionsTaken, Move.actions, hc, hid, hsid], fun action haction => ?_⟩
    simp only [Move.actions, hc, Option.map_some, Option.toList_some, List.mem_cons,
      List.not_mem_nil, or_false] at haction
    rcases haction with rfl | rfl
    · exact ⟨a, m, _, _, host, ha, hhost⟩
    · exact ⟨b, c.special, _, _, plan, hb, hplan⟩

/-- When a move has been carried out, the actions that it names have been counted, each as often as
it names it. -/
theorem usageOf_of_carryOut {x : Resolution} {mover : Seat} (hx : r.resolve s m = .ok x)
    (h : r.carryOut m mover x = .ok p) (action : ActionId) :
    p.state.usageOf action = Usage.record^[m.actions.count action] (s.usageOf action) := by
  obtain ⟨⟨p₁, events⟩, htake, hreact⟩ := bind_eq_ok h
  obtain ⟨p₀, htakes, htaken⟩ :=
    takeActions_takes (runs_of_resolve hx) (special_of_resolve hx) htake
  have hspent : p₁.state.usageOf action = p₀.state.usageOf action := by
    rw [htaken]
    cases x.grant <;> rfl
  rw [State.usageOf_congr (reactTo_ripples hreact).usage, hspent, htakes.usageOf,
    (actionsTaken_of_resolve hx).1]

/-- A move counts the actions that it names. -/
theorem eases_of_makeMove {res : MoveResult} (h : r.makeMove s m = .ok res) (action : ActionId) :
    (Usage.record^[m.actions.count action] (s.usageOf action)).Eases
    (res.state.usageOf action) := by
  obtain ⟨q, ⟨x, p, p', k, hx, hcarried, hout, hpasses⟩, -, hres⟩ := comesTo_of_makeMove h
  have hfollowed := State.SameMoment.afterMove p.state r.definition m
  have hclosing : ((p.state.afterMove r.definition m).2.usageOf action).Eases
      (p'.state.usageOf action) := by
    rcases setsOut_iff.1 hout with ⟨-, hout⟩ | ⟨-, rfl⟩
    · exact (endTurn_onwards hout).eases action
    · exact .refl _
  rw [hres, ← usageOf_of_carryOut hx hcarried]
  exact ((State.eases_of_eq hfollowed.usage action).trans hclosing).trans
    (hpasses.onwards.eases action)

/-- What is planned has uses left. -/
theorem lt_max_of_resolve {x : Resolution} (hx : r.resolve s m = .ok x) {a : Action}
    (ha : r.definition.action? a.id = some a) (htakes : a.id ∈ m.actions) {l : UsageLimit}
    (hl : l ∈ a.limits) : (s.usageOf a.id).within l.scope < l.max := by
  obtain ⟨b, move, free, special, plan, hb, hplan⟩ := (actionsTaken_of_resolve hx).2 a.id htakes
  obtain rfl : a = b := Option.some.inj (ha.symm.trans hb)
  obtain ⟨executor, -, hplan⟩ := bind_eq_ok hplan
  obtain ⟨⟨⟩, havailable, -⟩ := bind_eq_ok hplan
  obtain ⟨⟨⟩, -, havailable⟩ := bind_eq_ok havailable
  cases hlimit : s.exhaustedLimit? a with
  | some limit =>
    rw [hlimit] at havailable
    cases havailable
  | none =>
    have hleft := List.find?_eq_none.1 hlimit l hl
    simpa using hleft

end Rules

/-! ## Runs -/

/-- An action is found by its id, if no other has it. -/
theorem Definition.action?_of_mem {d : Definition} (hids : (d.actions.map (·.id)).Nodup)
    {a : Action} (ha : a ∈ d.actions) : d.action? a.id = some a := by
  obtain ⟨b, hb⟩ : ∃ b, d.action? a.id = some b :=
    Option.isSome_iff_exists.1 (List.find?_isSome.2 ⟨a, ha, beq_self_eq_true a.id⟩)
  have hid : b.id = a.id := by simpa using List.find?_some hb
  rw [hb, List.inj_on_of_nodup_map hids (List.mem_of_find?_eq_some hb) ha hid]

namespace Game

variable {g : Game} {moves : List Move} {s : State}

/-- A game starts without any use on record. -/
theorem usage_of_start {count : Nat} {seed : UInt64} (h : g.start count seed = .ok s) :
    s.usage = ∅ := by
  obtain ⟨blank, hblank, hstart⟩ := start_eq_ok h
  have hnothing : blank.usage = ∅ := by
    unfold Definition.blank at hblank
    split at hblank
    · cases hblank
    · obtain ⟨phase, -, hblank⟩ := bind_eq_ok hblank
      cases hblank
      rfl
  rcases hstart with ⟨rfl, -⟩ | ⟨x, hreaches, rfl⟩
  · exact hnothing
  · exact ((State.SameMoment.syncActive x.state _).usage.trans hreaches.kept.usage).trans hnothing

/-- A game starts with every count at zero. -/
theorem within_of_start {count : Nat} {seed : UInt64} (h : g.start count seed = .ok s)
    (action : ActionId) (scope : UsageScope) : (s.usageOf action).within scope = 0 := by
  rw [State.usageOf, usage_of_start h]
  cases scope <;> rfl

/-- The count over the game is the number of times that an action has been taken. -/
theorem game_of_played (h : g.Played moves s) (action : ActionId) :
    (s.usageOf action).game = UInt32.ofNat ((moves.flatMap Move.actions).count action) := by
  induction h with
  | start h => exact within_of_start h action .game
  | @move moves s r m res hprior hgame h ih =>
    have hcounted : (res.state.usageOf action).game =
        (s.usageOf action).game + UInt32.ofNat (m.actions.count action) :=
      (Rules.eases_of_makeMove h action).game.trans (Usage.within_iterate_record .game _ _)
    rw [hcounted, ih, List.flatMap_append, List.count_append, UInt32.ofNat_add]
    simp

/-- How a move that is made changes the count of an action over the scope of one of its limits. -/
theorem uses_of_makeMove {r : Rules} {m : Move} {res : MoveResult} (h : r.makeMove s m = .ok res)
    {a : Action} (ha : r.definition.action? a.id = some a) {l : UsageLimit} (hl : l ∈ a.limits) :
    (m.actions.count a.id ≠ 0 → (s.usageOf a.id).within l.scope < l.max) ∧
      ((res.state.usageOf a.id).within l.scope =
          (s.usageOf a.id).within l.scope + UInt32.ofNat (m.actions.count a.id) ∨
        (res.state.usageOf a.id).within l.scope = 0) := by
  constructor
  · intro htaken
    obtain ⟨x, q, hx, -, -⟩ := Rules.makeMove_eq_ok h
    exact Rules.lt_max_of_resolve hx ha (List.count_pos_iff.1 (Nat.pos_of_ne_zero htaken)) hl
  · rw [← Usage.within_iterate_record]
    exact (Rules.eases_of_makeMove h a.id).within l.scope

/-- Suppose that all actions have ids of their own.  In a state that is reached by moves, the count
of an action over the game is the number of times that it has been taken, and no limit is passed by
more than one.  A limit is kept as long as no move takes the action in both of its parts; a move
passes it exactly if it does, and one use was left, and the count has not started anew since. -/
theorem limits_of_played (hids : (g.definition.actions.map (·.id)).Nodup) (h : g.Played moves s) :
    (∀ action, (s.usageOf action).game =
        UInt32.ofNat ((moves.flatMap Move.actions).count action)) ∧
      ∀ a ∈ g.definition.actions, ∀ l ∈ a.limits,
        ((s.usageOf a.id).within l.scope).toNat ≤ l.max.toNat + 1 ∧
        ((∀ m ∈ moves, m.actions ≠ [a.id, a.id]) → (s.usageOf a.id).within l.scope ≤ l.max) ∧
        ∀ (r : Rules) (m : Move) (res : MoveResult), r.game = g → r.makeMove s m = .ok res →
          (s.usageOf a.id).within l.scope ≤ l.max →
            (l.max < (res.state.usageOf a.id).within l.scope ↔
              m.actions = [a.id, a.id] ∧ (s.usageOf a.id).within l.scope + 1 = l.max ∧
                (res.state.usageOf a.id).within l.scope ≠ 0) := by
  refine ⟨game_of_played h, fun a ha l hl => ?_⟩
  have hfound := Definition.action?_of_mem hids ha
  have hpass : ∀ {s : State} {r : Rules} {m : Move} {res : MoveResult}, r.game = g →
      r.makeMove s m = .ok res → (s.usageOf a.id).within l.scope ≤ l.max →
        (l.max < (res.state.usageOf a.id).within l.scope ↔
          m.actions = [a.id, a.id] ∧ (s.usageOf a.id).within l.scope + 1 = l.max ∧
            (res.state.usageOf a.id).within l.scope ≠ 0) := by
    rintro s r m res rfl hmove hwithin
    obtain ⟨hleft, hafter⟩ := uses_of_makeMove hmove hfound hl
    rw [Usage.lt_iff_of_uses (m.count_actions_le a.id) hleft hafter hwithin,
      Move.count_actions_eq_two_iff]
  refine ⟨?_, ?_, fun r m res => hpass⟩
  · clear hpass
    induction h with
    | start h =>
      rw [within_of_start h]
      exact Nat.zero_le _
    | @move moves s r m res hprior hgame h ih =>
      subst hgame
      obtain ⟨hleft, hafter⟩ := uses_of_makeMove h hfound hl
      exact Usage.toNat_le_of_uses (m.count_actions_le a.id) hleft hafter ih
  · induction h with
    | start h =>
      intro
      rw [within_of_start h]
      exact UInt32.zero_le
    | @move moves s r m res hprior hgame h ih =>
      intro hapart
      -- A limit that has been kept so far is passed by a move in both of its parts only.
      have hwithin := ih (fun m' hm' => hapart m' (List.mem_append_left _ hm'))
      have honce := hapart m (List.mem_append_right _ (List.mem_singleton_self m))
      rw [← UInt32.not_lt, hpass hgame h hwithin]
      exact fun hpassed => honce hpassed.1

end Game

/-! ## A forced march -/

/-- A game in which a march can be made once. -/
def Definition.forced : Definition :=
  { Definition.minimal "forced" with
    actions := [
      { id := "march", limits := [{ scope := .game, max := 1 }] },
      { id := "rest" }] }

/-- The rules of that game, under the usual limits. -/
def Rules.forced : Rules := { game := .ofDefinition .forced }

/-- Where two seats start that game. -/
def State.forced : State := (Rules.forced.game.start 2 0).toOption.getD default

/-- A march with a march that comes first. -/
def Move.forced : Move := (Move.named "march").accompaniedBy (.named "march") .before none

/-- The two marches of one move are counted as two, and so pass the limit of one. -/
theorem Game.limits_of_played_forced :
    ∃ res, Rules.forced.makeMove .forced .forced = .ok res ∧
      Rules.forced.game.Played [.forced] res.state ∧
      (State.forced.usageOf "march").game ≤ 1 ∧ (res.state.usageOf "march").game = 2 ∧
      1 < (res.state.usageOf "march").game := by
  obtain ⟨res, hres⟩ : ∃ res, Rules.forced.makeMove .forced .forced = .ok res :=
    exists_ok_of_isOk (by decide +kernel)
  have hstart : Rules.forced.game.start 2 0 = .ok .forced := eq_ok_getD (by decide +kernel)
  have hbefore : Rules.forced.game.Played [] .forced := .start hstart
  have hafter : Rules.forced.game.Played [.forced] res.state := hbefore.move rfl hres
  have hids : (Rules.forced.game.definition.actions.map (·.id)).Nodup := by decide +kernel
  obtain ⟨hcounts, -⟩ := Game.limits_of_played hids hafter
  obtain ⟨hunused, hlimits⟩ := Game.limits_of_played hids hbefore
  have hgame : (res.state.usageOf "march").game = 2 := (hcounts "march").trans (by decide)
  have hnone : (State.forced.usageOf "march").game = 0 := hunused "march"
  obtain ⟨-, hkept, hpasses⟩ := hlimits _ List.mem_cons_self _ (List.mem_singleton_self _)
  have hwithin : (State.forced.usageOf "march").game ≤ 1 := hkept nofun
  have hlast : (State.forced.usageOf "march").game + 1 = 1 := by
    rw [hnone]
    rfl
  have hcounted : (res.state.usageOf "march").game ≠ 0 := by
    rw [hgame]
    decide
  exact ⟨res, hres, hafter, hwithin, hgame,
    (hpasses .forced .forced res rfl hres hwithin).2 ⟨rfl, hlast, hcounted⟩⟩

end Tabletop
