import Tabletop.Proofs.Play.Annals
import Tabletop.Proofs.Play.Compound
import Tabletop.Proofs.Play.Stays
import Tabletop.Proofs.Play.Table

/-!
# Lasting effects in the course of a game

A lasting effect becomes active when its action is taken, and only a boundary of its duration ends
it.  The state keeps the active effects in the order of their setups, but it keeps nothing else:
neither which activation an entry stands for, nor whether a teardown has run.  That is told by
annals beside the game.  Every run has annals that go along with it, step by step, and are orderly;
and at every moment the state lists exactly the activations that are active by then.

An entry of the state names its effect by an id only.  So the teardown that runs at a boundary is
the activation's own if no two lasting effects share an id.

Main statement: `Game.lasting_of_played`.
-/

namespace Tabletop

/-! ## What leaves lasting effects alone -/

namespace State

variable (s : State) (d : Definition)

/-- Synchronising the active seat leaves lasting effects. -/
@[simp] theorem lasting_syncActive : (s.syncActive d).lasting = s.lasting := by
  unfold syncActive
  split <;> rfl

/-- A reveal leaves lasting effects. -/
@[simp] theorem lasting_reveal (source target : ZoneId) :
    (s.reveal source target).lasting = s.lasting := by
  unfold reveal
  split <;> rfl

/-- The end of a card leaves lasting effects. -/
@[simp] theorem lasting_endCard : (s.endCard d).lasting = s.lasting := by
  unfold endCard
  split
  · dsimp only
    split
    · exact lasting_reveal _ _ _
    · rfl
  · rfl

/-- Settling a card leaves lasting effects. -/
@[simp] theorem lasting_settleCard (rules : CardRules) :
    (s.settleCard d rules).2.lasting = s.lasting := by
  unfold settleCard
  split <;> simp

/-- What a move does to the turn order leaves lasting effects. -/
@[simp] theorem lasting_afterMove (m : Move) : (s.afterMove d m).2.lasting = s.lasting := by
  unfold afterMove
  split <;> simp

/-- Passing over a seat that is stuck leaves lasting effects. -/
@[simp] theorem lasting_skipStuckSeat : (s.skipStuckSeat d).2.lasting = s.lasting := by
  unfold skipStuckSeat
  split <;> simp

/-- Handing over to the next seat leaves lasting effects. -/
@[simp] theorem lasting_rotate : (s.rotate d).lasting = s.lasting := by
  unfold rotate
  rw [lasting_syncActive]
  split <;> rfl

/-- The state without the lasting effects of a duration. -/
def without (dur : Duration) : State :=
  { s with lasting := s.lasting.filter (fun l => l.duration ≠ dur) }

end State

/-! ## Steps -/

namespace Rules

/-- One step of a game that does not concern lasting effects. -/
inductive Aside (r : Rules) : Progress → Progress → Prop where
  /-- The effects of a move run. -/
  | resolve {s : State} {m : Move} {x : Resolution} (hx : r.resolve s m = .ok x) :
      Aside r { state := s } (Progress.absorb { state := s } x.session)
  /-- Triggers react to events. -/
  | react {p q : Progress} {events : List Event} (h : r.dispatch events p = .ok q) : Aside r p q
  | use (p : Progress) (action : ActionId) : Aside r p (p.withState (p.state.recordUsage action))
  | reset (p : Progress) (scope : UsageScope) : Aside r p (p.withState (p.state.resetUsage scope))
  | consume (p : Progress) (grant : String) : Aside r p (p.withState (p.state.consumeGrant grant))
  | follow (p : Progress) (m : Move) :
      Aside r p (p.withState (p.state.afterMove r.definition m).2)
  | skip (p : Progress) : Aside r p (p.withState (p.state.skipStuckSeat r.definition).2)
  | startTurn {p : Progress} {s : State} (hstart : r.startTurn p.state = .ok s) :
      Aside r p (p.withState s)
  | resume (p : Progress) (phase : PhaseId) :
      Aside r p (p.withState { p.state with suspended := p.state.suspended.dropLast, phase })
  | enterPhase {p : Progress} {phase : PhaseId}
      (hafter : r.definition.turn.after? p.state.phase = some phase) :
      Aside r p (p.withState ({ p.state with phase }.syncActive r.definition))

/-- One step of a game that concerns lasting effects, as annals tell it. -/
inductive Concerns (r : Rules) : Happening → Progress → Progress → Prop where
  /-- The setup of an effect runs, and the effect becomes active. -/
  | setup {p : Progress} {a : Activation} {b : Bindings} {x : Session}
      (hrun : runEffects (r.strict a.seat (.lastingSetup a.effect.id) (some a.action))
        ("lasting:" ++ a.effect.id ++ "/setup") b a.effect.setup p.state = .ok x) :
      Concerns r (.setup a) p ((p.absorb x).withState (withLasting (p.absorb x).state a.entry))
  /-- A phase is left, and the triggers have reacted to that. -/
  | leavePhase {p p' q : Progress} (h : r.leavePhase p = .ok q)
      (hexit : r.dispatch [.phaseExit p.state.phase] p = .ok p') :
      Concerns r (.boundary .phase) p' (p'.withState (p'.state.without .phase))
  /-- A turn is closed, and the triggers have reacted to that. -/
  | closeTurn {p p' q : Progress} (h : r.closeTurn p = .ok q)
      (hend : r.dispatch [.turnEnd p.state.turn p.state.active] p = .ok p') :
      Concerns r (.boundary .turn) p' (p'.withState (p'.state.without .turn))
  /-- The teardown of an effect runs. -/
  | teardown {p : Progress} {a : Activation} {x : Session}
      (hrun : runEffects (r.strict a.seat (.lastingTeardown a.effect.id) (some a.action))
        ("lasting:" ++ a.effect.id ++ "/teardown") ∅ a.effect.teardown p.state = .ok x) :
      Concerns r (.teardown a) p (p.absorb x)

variable {r : Rules} {p q : Progress} {x : Happening} {o : Roster}

/-- A step that does not concern lasting effects leaves them. -/
theorem Aside.lasting (h : r.Aside p q) : q.state.lasting = p.state.lasting := by
  cases h with
  | resolve hx => exact (runs_of_resolve hx).kept.lasting
  | react h => exact (dispatch_reacts h).kept.lasting
  | use action => rfl
  | reset scope => rfl
  | consume grant => rfl
  | follow m => exact State.lasting_afterMove _ _ _
  | skip => exact State.lasting_skipStuckSeat _ _
  | startTurn hstart =>
    obtain ⟨phase, -, hstart⟩ := bind_eq_ok hstart
    cases hstart
    exact State.lasting_rotate _ _
  | resume phase => rfl
  | enterPhase hafter => exact State.lasting_syncActive _ _

end Rules

namespace Roster

variable {o : Roster} {s : State} {d : Duration}

/-- A boundary does the same to the state as to the roster. -/
theorem lasting_without (h : s.lasting = o.active.map Activation.entry) (d : Duration) :
    (s.without d).lasting = (o.tell (.boundary d)).active.map Activation.entry := by
  show s.lasting.filter _ = _
  rw [h, List.filter_map]
  rfl

end Roster

namespace Rules

variable {r : Rules} {p q : Progress} {x : Happening} {o : Roster}

/-- If the state lists who is active, it still does after a step that annals tell. -/
theorem Concerns.lasting (h : r.Concerns x p q)
    (hp : p.state.lasting = o.active.map Activation.entry) :
    q.state.lasting = (o.tell x).active.map Activation.entry := by
  cases h with
  | @setup _ a b y hrun =>
    have hkept : y.state.lasting = p.state.lasting := (reaches_of_runEffects hrun).kept.lasting
    have hall : (o.tell (.setup a)).active.map Activation.entry =
        o.active.map Activation.entry ++ [a.entry] := List.map_append
    show y.state.lasting ++ [a.entry] = _
    rw [hkept, hp, hall]
  | leavePhase h hexit => exact Roster.lasting_without hp .phase
  | closeTurn h hend => exact Roster.lasting_without hp .turn
  | teardown hrun => exact (reaches_of_runEffects hrun).kept.lasting.trans hp

end Rules

/-! ## Annals of a game -/

namespace Game

/-- The game goes from one progress to another, and annals tell what happens on the way. -/
inductive Unfolds (g : Game) : List Happening → Progress → Progress → Prop where
  | here (p : Progress) : Unfolds g [] p p
  | aside {r : Rules} {log : List Happening} {p p' q : Progress} (hgame : r.game = g)
      (h : r.Aside p p') (hrest : Unfolds g log p' q) : Unfolds g log p q
  | tell {r : Rules} {x : Happening} {log : List Happening} {p p' q : Progress} (hgame : r.game = g)
      (h : r.Concerns x p p') (hrest : Unfolds g log p' q) : Unfolds g (x :: log) p q
  /-- A move has been made: the state is stamped, and the next move is made from there. -/
  | stamp {log : List Happening} {p q : Progress}
      (hrest : Unfolds g log { state := p.state.stamp } q) : Unfolds g log p q

namespace Unfolds

variable {g : Game} {log log' : List Happening} {p p' q : Progress} {o : Roster}

/-- A game unfolds in two parts as annals tell both. -/
theorem trans (h : g.Unfolds log p p') (h' : g.Unfolds log' p' q) :
    g.Unfolds (log ++ log') p q := by
  induction h with
  | here => exact h'
  | aside hgame hstep _ ih => exact .aside hgame hstep (ih h')
  | tell hgame hstep _ ih => exact .tell hgame hstep (ih h')
  | stamp _ ih => exact .stamp (ih h')

/-- Wherever annals are cut, the game is somewhere. -/
theorem split {whole : List Happening} (h : g.Unfolds whole p q) :
    ∀ {log : List Happening}, whole = log ++ log' →
      ∃ p', g.Unfolds log p p' ∧ g.Unfolds log' p' q := by
  induction h with
  | here p =>
    intro log hcut
    obtain ⟨rfl, rfl⟩ := List.append_eq_nil_iff.1 hcut.symm
    exact ⟨p, .here p, .here p⟩
  | aside hgame hstep _ ih =>
    intro log hcut
    obtain ⟨p', hbefore, hafter⟩ := ih hcut
    exact ⟨p', .aside hgame hstep hbefore, hafter⟩
  | @tell r x rest p p₁ q hgame hstep hrest ih =>
    intro log hcut
    rcases List.cons_eq_append_iff.1 hcut with ⟨rfl, rfl⟩ | ⟨log, rfl, hlog⟩
    · exact ⟨p, .here p, .tell hgame hstep hrest⟩
    · obtain ⟨p', hbefore, hafter⟩ := ih hlog
      exact ⟨p', .tell hgame hstep hbefore, hafter⟩
  | stamp _ ih =>
    intro log hcut
    obtain ⟨p', hbefore, hafter⟩ := ih hcut
    exact ⟨p', .stamp hbefore, hafter⟩

/-- If the state lists who is active, it does so all the way. -/
theorem lasting (h : g.Unfolds log p q) :
    ∀ {o : Roster}, p.state.lasting = o.active.map Activation.entry →
      q.state.lasting = (o.tellAll log).active.map Activation.entry := by
  induction h with
  | here => exact id
  | aside hgame hstep _ ih => exact fun hp => ih (hstep.lasting.trans hp)
  | tell hgame hstep _ ih => exact fun hp => ih (hstep.lasting hp)
  | stamp _ ih => exact fun hp => ih hp

end Unfolds

/-- Between moves and boundaries, nobody is due, the state lists who is active, and the ids that it
lists lead back to their effects. -/
structure Keeps (g : Game) (o : Roster) (s : State) : Prop where
  due : o.due = []
  lasting : s.lasting = o.active.map Activation.entry
  declared : ∀ a ∈ o.active, g.definition.lastingEffect? a.effect.id = some a.effect

/-- The game unfolds as annals tell, which are in order for a roster that is kept before and
after. -/
structure Follows (g : Game) (o : Roster) (log : List Happening) (p q : Progress) : Prop where
  unfolds : g.Unfolds log p q
  orderly : o.Orderly log
  keeps : g.Keeps (o.tellAll log) q.state

namespace Follows

variable {r : Rules} {g : Game} {o : Roster} {log log' : List Happening} {p p' q : Progress}

/-- A game that has not gone on follows empty annals. -/
theorem refl (h : g.Keeps o p.state) : g.Follows o [] p p := ⟨.here p, trivial, h⟩

/-- A game that follows annals and then more follows them together. -/
theorem trans (h : g.Follows o log p p') (h' : g.Follows (o.tellAll log) log' p' q) :
    g.Follows o (log ++ log') p q where
  unfolds := h.unfolds.trans h'.unfolds
  orderly := Roster.orderly_append.2 ⟨h.orderly, h'.orderly⟩
  keeps := by
    rw [Roster.tellAll_append]
    exact h'.keeps

/-- A game still follows its annals after a step that does not concern lasting effects. -/
theorem aside (h : r.game.Follows o log p p') (h' : r.Aside p' q) : r.game.Follows o log p q where
  unfolds := by
    rw [← List.append_nil log]
    exact h.unfolds.trans (.aside rfl h' (.here q))
  orderly := h.orderly
  keeps := ⟨h.keeps.due, h'.lasting.trans h.keeps.lasting, h.keeps.declared⟩

/-- Boundaries come one after the other. -/
theorem cross {ds ds' : List Duration} (h : g.Follows o (o.crossing ds) p p')
    (h' : g.Follows (o.tellAll (o.crossing ds)) ((o.tellAll (o.crossing ds)).crossing ds') p' q) :
    g.Follows o (o.crossing (ds ++ ds')) p q := by
  rw [Roster.crossing_append]
  exact h.trans h'

end Follows

end Game

/-! ## Boundaries -/

namespace Rules

variable {r : Rules} {p q : Progress} {o : Roster}

/-- Teardowns run one after the other, for the seats for which the setups ran. -/
theorem unfolds_of_tearDown {due : List Activation}
    (hdeclared : ∀ a ∈ due, r.definition.lastingEffect? a.effect.id = some a.effect)
    (h : r.tearDown (due.map Activation.entry) p = .ok q) :
    r.game.Unfolds (due.map .teardown) p q := by
  induction due generalizing p with
  | nil =>
    cases h
    exact .here _
  | cons a due ih =>
    obtain ⟨effect, heffect, h⟩ := bind_eq_ok h
    have hfound := orFault_eq_ok (attempt_eq_ok heffect)
    obtain rfl : effect = a.effect :=
      Option.some.inj (hfound.symm.trans (hdeclared a List.mem_cons_self))
    obtain ⟨x, hx, htear⟩ := bind_eq_ok h
    obtain ⟨p', hdispatch, htear⟩ := bind_eq_ok htear
    have hrest := ih (fun b hb => hdeclared b (List.mem_cons_of_mem _ hb)) htear
    exact .tell rfl (.teardown (attempt_eq_ok hx)) (.aside rfl (.react hdispatch) hrest)

/-- At a boundary, the effects of its duration end. -/
theorem follows_of_expire {d : Duration} (ho : r.game.Keeps o p.state)
    (hboundary : r.Concerns (.boundary d) p (p.withState (p.state.without d)))
    (h : r.expire d p = .ok q) : r.game.Follows o (o.passing d) p q := by
  have hending : p.state.lasting.filter (fun l => l.duration = d) =
      (o.ending d).map Activation.entry := by
    rw [ho.lasting, List.filter_map]
    rfl
  have htorn : r.tearDown ((o.ending d).map Activation.entry)
      (p.withState (p.state.without d)) = .ok q := by
    rw [← hending]
    exact h
  have hdeclared : ∀ a ∈ o.ending d, r.definition.lastingEffect? a.effect.id = some a.effect :=
    fun a ha => ho.declared a (List.mem_filter.1 ha).1
  have hunfolds : r.game.Unfolds (o.passing d) p q :=
    .tell rfl hboundary (unfolds_of_tearDown hdeclared htorn)
  refine ⟨hunfolds, Roster.orderly_passing ho.due d, ?_, hunfolds.lasting ho.lasting, ?_⟩
  · rw [Roster.tellAll_passing ho.due]
    exact ho.due
  · rw [Roster.tellAll_passing ho.due]
    exact fun a ha => ho.declared a (List.mem_filter.1 ha).1

/-- A step that does not concern lasting effects keeps what a roster knows of the state. -/
theorem Aside.keeps (h : r.Aside p q) (ho : r.game.Keeps o p.state) : r.game.Keeps o q.state :=
  ((Game.Follows.refl ho).aside h).keeps

/-- Leaving a phase crosses the boundary of a phase, and annals tell so. -/
theorem follows_of_leavePhase (ho : r.game.Keeps o p.state) (h : r.leavePhase p = .ok q) :
    r.game.Follows o (o.crossing [.phase]) p q := by
  have hleave := h
  obtain ⟨p₁, hexit, h⟩ := bind_eq_ok h
  obtain ⟨p₂, hexpire, h⟩ := bind_eq_ok h
  cases h
  have hreacted := (Game.Follows.refl ho).aside (.react hexit)
  have hexpired := follows_of_expire hreacted.keeps (.leavePhase hleave hexit) hexpire
  rw [Roster.crossing, Roster.crossing, List.append_nil]
  exact (hreacted.trans hexpired).aside (.reset p₂ .phase)

/-- Closing a turn crosses the boundary of a turn, and annals tell so. -/
theorem follows_of_closeTurn (ho : r.game.Keeps o p.state) (h : r.closeTurn p = .ok q) :
    r.game.Follows o (o.crossing [.turn]) p q := by
  have hclose := h
  obtain ⟨p₁, hend, h⟩ := bind_eq_ok h
  obtain ⟨p₂, hexpire, h⟩ := bind_eq_ok h
  obtain ⟨s, hstart, h⟩ := bind_eq_ok h
  have hreacted := (Game.Follows.refl ho).aside (.react hend)
  have hexpired := follows_of_expire hreacted.keeps (.closeTurn hclose hend) hexpire
  have hreset := (hreacted.trans hexpired).aside (.reset p₂ .turn)
  have hstarted := hreset.aside (.startTurn (attempt_eq_ok hstart))
  rw [Roster.crossing, Roster.crossing, List.append_nil]
  exact hstarted.aside (.react h)

/-- Ending a turn crosses the boundaries of its last phase and of the turn, and annals tell so. -/
theorem follows_of_endTurn (ho : r.game.Keeps o p.state) (h : r.endTurn p = .ok q) :
    r.game.Follows o (o.crossing [.phase, .turn]) p q := by
  obtain ⟨p', hleave, h⟩ := bind_eq_ok h
  have hleft := follows_of_leavePhase ho hleave
  exact hleft.cross (follows_of_closeTurn hleft.keeps h)

end Rules

/-! ## Which boundaries come -/

/-- The boundaries that a transition from a state to another crosses.  If the turn is another one,
the last has been closed; and a phase is left unless a seat is passed over within the turn. -/
def State.crossed (s : State) (d : Definition) (t : State) : List Duration :=
  if t.turn ≠ s.turn then [.phase, .turn]
  else if s.suspended = [] ∧ d.order.cards?.isSome then []
  else [.phase]

/-- The boundaries that have come, told as a chronicle. -/
def Duration.chronicle (d : Definition) : Chronicle (List Duration) where
  first := []
  move ds s _ t := ds ++ if t.turn = s.turn then [] else [.phase, .turn]
  pass ds s t := ds ++ s.crossed d t

namespace State

variable {s t : State} {d : Definition}

/-- A transition to another turn crosses both boundaries. -/
theorem crossed_close (h : t.turn ≠ s.turn) : s.crossed d t = [.phase, .turn] := if_pos h

/-- A transition that passes over a seat crosses no boundary. -/
theorem crossed_skip (hturn : t.turn = s.turn) (hnone : s.suspended = [])
    (hcards : d.order.cards?.isSome = true) : s.crossed d t = [] := by
  simp [crossed, hturn, hnone, hcards]

/-- Any other transition within a turn crosses the boundary of a phase. -/
theorem crossed_leave (hturn : t.turn = s.turn)
    (h : ¬(s.suspended = [] ∧ d.order.cards?.isSome = true)) : s.crossed d t = [.phase] := by
  unfold crossed
  rw [if_neg (not_not.2 hturn), if_neg h]

end State

namespace Rules

variable {r : Rules} {p q : Progress} {o : Roster} {s : State} {m : Move}

/-- A transition follows the annals of the boundaries that it crosses. -/
theorem follows_of_transition (ho : r.game.Keeps o p.state) (h : r.transition p = .ok q) :
    r.game.Follows o (o.crossing (p.state.crossed r.definition q.state)) p q := by
  have hskipped := State.SameMoment.skipStuckSeat p.state r.definition
  have hsame {p' : Progress} (hleave : r.leavePhase p = .ok p') : p'.state.turn = p.state.turn := by
    obtain ⟨pushed, hpushed⟩ := leavePhase_interrupted hleave
    exact hpushed.turn
  cases transits_of_transition h with
  | resume hlast hleave h =>
    have hsuspended : p.state.suspended ≠ [] := by
      intro hnone
      rw [hnone] at hlast
      cases hlast
    have hstill := hsame hleave
    have hturn : q.state.turn = p.state.turn := by
      rw [h]
      exact hstill
    rw [State.crossed_leave hturn (fun hand => hsuspended hand.1), h]
    exact (follows_of_leavePhase ho hleave).aside (.resume _ _)
  | skip hnone hcards _ h =>
    have hturn : q.state.turn = p.state.turn := by
      rw [h]
      exact hskipped.turn
    rw [State.crossed_skip hturn hnone hcards, h]
    exact (Game.Follows.refl ho).aside (.skip p)
  | skipAll hnone hcards _ h =>
    rw [State.crossed_close ((endTurn_nextTurn h).of_turn hskipped.turn).turn_ne]
    have hpassed := (Game.Follows.refl ho).aside (.skip p)
    exact hpassed.trans (follows_of_endTurn hpassed.keeps h)
  | @enter phase p' hnone hcards hleave hafter h =>
    have hentered := State.SameMoment.syncActive { p'.state with phase } r.definition
    obtain ⟨more, hmore⟩ := (dispatch_ripples h).interrupted
    have hturn : q.state.turn = p.state.turn :=
      hmore.turn.trans (hentered.turn.trans (hsame hleave))
    rw [State.crossed_leave hturn (fun hand => by simp [hcards] at hand)]
    exact ((follows_of_leavePhase ho hleave).aside (.enterPhase hafter)).aside (.react h)
  | close hnone hcards hleave hafter h =>
    rw [State.crossed_close ((closeTurn_nextTurn h).of_turn (hsame hleave)).turn_ne]
    have hleft := follows_of_leavePhase ho hleave
    exact hleft.cross (follows_of_closeTurn hleft.keeps h)

/-- A game that sets out after a move crosses both boundaries if the move has ended the turn, and
else none. -/
theorem follows_of_setsOut (hturn : p.state.turn = s.turn) (ho : r.game.Keeps o p.state)
    (h : r.SetsOut m p q) :
    r.game.Follows o (o.crossing (if q.state.turn = s.turn then [] else [.phase, .turn])) p q := by
  have hfollowed := State.SameMoment.afterMove p.state r.definition m
  have hmoved := (Game.Follows.refl ho).aside (.follow p m)
  rcases setsOut_iff.1 h with ⟨-, h⟩ | ⟨-, rfl⟩
  · rw [if_neg ((endTurn_nextTurn h).of_turn (hfollowed.turn.trans hturn)).turn_ne]
    exact hmoved.trans (follows_of_endTurn hmoved.keeps h)
  · have hstill : (p.withState (p.state.afterMove r.definition m).2).state.turn = s.turn :=
      hfollowed.turn.trans hturn
    rw [if_pos hstill]
    exact hmoved

/-- Transitions follow the annals of the boundaries that their chronicle tells, by induction on
them. -/
theorem follows_of_tells {ds ds' : List Duration}
    (h : r.Tells (Duration.chronicle r.definition) ds p ds' q) :
    ∀ {o : Roster}, r.game.Keeps o p.state →
      ∃ more, ds' = ds ++ more ∧ r.game.Follows o (o.crossing more) p q := by
  induction h with
  | none ds p =>
    intro o ho
    exact ⟨[], (List.append_nil ds).symm, .refl ho⟩
  | @next ds ds' p p' q _ htransition _ ih =>
    intro o ho
    have hcrossed := follows_of_transition ho htransition
    obtain ⟨more, hmore, hrest⟩ := ih hcrossed.keeps
    exact ⟨_, by rw [hmore]; exact List.append_assoc _ _ _, hcrossed.cross hrest⟩

end Rules

/-! ## Moves -/

/-- The lasting effects that an action of a seat brings. -/
def Action.brings (a : Action) (seat : Seat) : List (LastingEffect × ActionId × Seat) :=
  a.lasting.map (fun effect => (effect, a.id, seat))

/-- The lasting effects that a resolved move brings: those of its host, and those of its special
activity if it has one. -/
def Resolution.lasting (x : Resolution) : List (LastingEffect × ActionId × Seat) :=
  x.action.brings x.executor ++ (x.special.map (fun e => e.1.brings e.2)).getD []

/-- Lasting effects are set up one after the other, and nothing else happens to lasting effects. -/
def Game.SetsUp (g : Game) (o : Roster) (effects : List (LastingEffect × ActionId × Seat))
    (p q : Progress) : Prop :=
  ∃ as : List Activation, as.map Activation.origin = effects ∧ g.Follows o (as.map .setup) p q

/-- The lasting effects of an action are found by their ids. -/
def Definition.Finds (d : Definition) (a : Action) : Prop :=
  ∀ effect ∈ a.lasting, d.lastingEffect? effect.id = some effect

/-- A lasting effect is found by its id, if no other has it. -/
theorem Definition.finds_of_mem {d : Definition}
    (hids : ((d.actions.flatMap (·.lasting)).map (·.id)).Nodup) {a : Action} (ha : a ∈ d.actions) :
    d.Finds a := by
  intro effect heffect
  have hmem : effect ∈ d.actions.flatMap (·.lasting) := List.mem_flatMap.2 ⟨a, ha, heffect⟩
  obtain ⟨found, hfound⟩ : ∃ found, d.lastingEffect? effect.id = some found :=
    Option.isSome_iff_exists.1 (List.find?_isSome.2 ⟨effect, hmem, beq_self_eq_true effect.id⟩)
  have hid : found.id = effect.id := by simpa using List.find?_some hfound
  rw [hfound, List.inj_on_of_nodup_map hids (List.mem_of_find?_eq_some hfound) hmem hid]

namespace Rules

variable {r : Rules} {p q : Progress} {o : Roster} {s : State} {m : Move} {x : Resolution}

/-- The actions of a resolved move are declared. -/
theorem declared_of_resolve (h : r.resolve s m = .ok x) :
    x.action ∈ r.definition.actions ∧ ∀ e, x.special = some e → e.1 ∈ r.definition.actions := by
  obtain ⟨a, grant, host, special, y, -, ha, -, -, hhost, hspecial, -, rfl⟩ := resolve_eq_ok_iff.1 h
  have hfor : host.For m a false := (Plan.make_asks r.game s m a m.free false).of_ok hhost
  constructor
  · rw [hfor.action]
    exact List.mem_of_find?_eq_some ha
  · intro e he
    obtain ⟨c, hc, rfl⟩ := Option.map_eq_some_iff.1 he
    obtain ⟨c', hc', -, -⟩ := planCompound_eq_ok hspecial hc
    obtain ⟨b, plan, hb, hplan, hplanned, -⟩ := planCompound_of_compound hc' hspecial
    have hfor : plan.For c'.special b true :=
      (Plan.make_asks r.game s c'.special b m.free true).of_ok hplan
    obtain rfl := Option.some.inj (hc.symm.trans hplanned)
    rw [hfor.action]
    exact List.mem_of_find?_eq_some hb

/-- A setup makes its activation the youngest one. -/
theorem follows_of_setup {a : Activation} {b : Bindings} {y : Session}
    (hnumber : a.number = o.count)
    (hfound : r.definition.lastingEffect? a.effect.id = some a.effect)
    (ho : r.game.Keeps o p.state)
    (hrun : runEffects (r.strict a.seat (.lastingSetup a.effect.id) (some a.action))
      ("lasting:" ++ a.effect.id ++ "/setup") b a.effect.setup p.state = .ok y) :
    r.game.Follows o [.setup a] p
      ((p.absorb y).withState (withLasting (p.absorb y).state a.entry)) := by
  have hunfolds : r.game.Unfolds [.setup a] p
      ((p.absorb y).withState (withLasting (p.absorb y).state a.entry)) :=
    .tell rfl (.setup hrun) (.here _)
  refine ⟨hunfolds, ⟨⟨ho.due, hnumber⟩, trivial⟩, ho.due, hunfolds.lasting ho.lasting, ?_⟩
  intro c hc
  rcases List.mem_append.1 hc with hc | hc
  · exact ho.declared c hc
  · rw [List.mem_singleton.1 hc]
    exact hfound

/-- The lasting effects of an action are set up one after the other. -/
theorem setsUp_of_activateLasting {a : Action} {seat : Seat} {b : Bindings}
    {effects : List LastingEffect}
    (hfound : ∀ effect ∈ effects, r.definition.lastingEffect? effect.id = some effect) :
    ∀ {o : Roster} {p q : Progress} {events : List Event}, r.game.Keeps o p.state →
      r.activateLasting a seat b effects p = .ok (q, events) →
        r.game.SetsUp o (effects.map (fun effect => (effect, a.id, seat))) p q := by
  induction effects with
  | nil =>
    intro o p q events ho h
    cases h
    exact ⟨[], rfl, .refl ho⟩
  | cons effect effects ih =>
    intro o p q events ho h
    obtain ⟨y, hy, h⟩ := bind_eq_ok h
    obtain ⟨⟨p', events'⟩, hrest, h⟩ := bind_eq_ok h
    cases h
    let first : Activation := { number := o.count, effect, action := a.id, seat }
    have hset := follows_of_setup (a := first) rfl (hfound effect List.mem_cons_self) ho
      (attempt_eq_ok hy)
    obtain ⟨as, has, hfollows⟩ :=
      ih (fun e he => hfound e (List.mem_cons_of_mem _ he)) hset.keeps hrest
    exact ⟨first :: as, by rw [List.map_cons, has]; rfl, hset.trans hfollows⟩

/-- Taking an action sets up the lasting effects that it brings. -/
theorem setsUp_of_take {a : Action} {seat : Seat} {params : Dict Selection} {events : List Event}
    (hfound : r.definition.Finds a) (ho : r.game.Keeps o p.state)
    (h : r.take a seat params p = .ok (q, events)) : r.game.SetsUp o (a.brings seat) p q := by
  obtain ⟨⟨p', events'⟩, hactivate, h⟩ := bind_eq_ok h
  cases h
  obtain ⟨as, has, hfollows⟩ := setsUp_of_activateLasting hfound ho hactivate
  exact ⟨as, has, hfollows.aside (.use p' a.id)⟩

/-- Taking the special activity of a move, if there is one, sets up the lasting effects that it
brings. -/
theorem setsUp_of_takeSpecial {events : List Event}
    (hwith : x.special.isSome = m.compound.isSome)
    (hfound : ∀ e, x.special = some e → r.definition.Finds e.1) (ho : r.game.Keeps o p.state)
    (h : r.takeSpecial m x p = .ok (q, events)) :
    r.game.SetsUp o ((x.special.map (fun e => e.1.brings e.2)).getD []) p q := by
  unfold takeSpecial at h
  cases hx : x.special with
  | none =>
    rw [hx] at h
    cases h
    exact ⟨[], rfl, .refl ho⟩
  | some e =>
    rw [hx] at h hwith
    obtain ⟨c, hc⟩ := Option.isSome_iff_exists.1 hwith.symm
    rw [hc] at h
    exact setsUp_of_take (hfound e hx) ho h

/-- When the actions of a move have been taken and the triggers have reacted, its lasting effects
have been set up, and nothing else has happened to lasting effects. -/
theorem setsUp_of_carryOut {mover : Seat}
    (hids : ((r.definition.actions.flatMap (·.lasting)).map (·.id)).Nodup)
    (ho : r.game.Keeps o s) (hx : r.resolve s m = .ok x) (h : r.carryOut m mover x = .ok p) :
    r.game.SetsUp o x.lasting { state := s } p := by
  obtain ⟨hhost, hspecial⟩ := declared_of_resolve hx
  have hresolved := (Game.Follows.refl (p := { state := s }) ho).aside (.resolve hx)
  obtain ⟨⟨p₁, events⟩, htake, hreact⟩ := bind_eq_ok h
  obtain ⟨⟨p₂, hostEvents⟩, htaken, htake⟩ := bind_eq_ok htake
  obtain ⟨⟨p₃, specialEvents⟩, haccompanied, htake⟩ := bind_eq_ok htake
  obtain ⟨as, has, hset⟩ :=
    setsUp_of_take (Definition.finds_of_mem hids hhost) hresolved.keeps htaken
  obtain ⟨as', has', hset'⟩ := setsUp_of_takeSpecial (special_of_resolve hx)
    (fun e he => Definition.finds_of_mem hids (hspecial e he)) hset.keeps haccompanied
  have hall : r.game.Follows o ((as ++ as').map .setup) { state := s } p₃ := by
    rw [List.map_append]
    exact (hresolved.trans hset).trans hset'
  have hspent : r.game.Follows o ((as ++ as').map .setup) { state := s } p₁ := by
    cases hgrant : x.grant with
    | none =>
      rw [hgrant] at htake
      cases htake
      exact hall
    | some id =>
      rw [hgrant] at htake
      cases htake
      exact hall.aside (.consume p₃ id)
  obtain ⟨p₄, hevents, hactions⟩ := bind_eq_ok hreact
  refine ⟨as ++ as', by rw [List.map_append, has, has']; rfl, ?_⟩
  exact (hspent.aside (.react hevents)).aside (.react hactions)

/-- A move sets up its lasting effects, and then the boundaries come that it leads to. -/
theorem follows_of_comesTo (hids : ((r.definition.actions.flatMap (·.lasting)).map (·.id)).Nodup)
    (ho : r.game.Keeps o s) (h : r.ComesTo s m q) :
    ∃ (x : Resolution) (as : List Activation) (ds : List Duration),
      r.resolve s m = .ok x ∧ as.map Activation.origin = x.lasting ∧
      r.Retells (Duration.chronicle r.definition) [] s m ds q ∧
      r.game.Follows o (o.course as ds) { state := s } q := by
  obtain ⟨ds, x, p, p', hx, hcarried, hout, htells⟩ :=
    h.exists_retells (Duration.chronicle r.definition) []
  obtain ⟨as, has, hset⟩ := setsUp_of_carryOut hids ho hx hcarried
  obtain ⟨pushed, hpushed⟩ := carryOut_interrupted hx hcarried
  have hsetOut := follows_of_setsOut hpushed.turn hset.keeps hout
  obtain ⟨more, rfl, hcrossed⟩ := follows_of_tells htells hsetOut.keeps
  exact ⟨x, as, _, hx, has, ⟨x, p, p', hx, hcarried, hout, htells⟩,
    hset.trans (hsetOut.cross hcrossed)⟩

end Rules

/-! ## Runs -/

namespace Game

variable {g : Game} {moves : List Move} {s : State}

/-- Nothing lasts at the start. -/
theorem lasting_of_start {count : Nat} {seed : UInt64} (h : g.start count seed = .ok s) :
    s.lasting = [] := by
  obtain ⟨blank, hblank, hstart⟩ := start_eq_ok h
  have hnothing := (State.isBlank hblank).lasting
  rcases hstart with ⟨rfl, -⟩ | ⟨x, hreaches, rfl⟩
  · exact hnothing
  · exact (State.lasting_syncActive _ _).trans (hreaches.kept.lasting.trans hnothing)

/-- The annals of a run.  Every move sets up the lasting effects that it brings, in their order;
then the boundaries come that the game crosses on its way to the next decision, and each of them
ends what it has to end. -/
inductive Lived (g : Game) (start : State) : List Move → List Happening → State → Prop where
  | start : Lived g start [] [] start
  | move {moves : List Move} {log : List Happening} {s : State} {r : Rules} {m : Move}
      {res : MoveResult} {x : Resolution} {as : List Activation} {ds : List Duration} {q : Progress}
      (hprior : Lived g start moves log s) (hgame : r.game = g) (h : r.makeMove s m = .ok res)
      (hx : r.resolve s m = .ok x) (hsetups : as.map Activation.origin = x.lasting)
      (hretells : r.Retells (Duration.chronicle g.definition) [] s m ds q)
      (hunfolds : g.Unfolds ((Roster.tellAll {} log).course as ds) { state := s } q)
      (hres : res.state = q.state.stamp) :
      Lived g start (moves ++ [m]) (log ++ (Roster.tellAll {} log).course as ds) res.state

/-- Every run has annals, and they are in order. -/
theorem Played.exists_lived
    (hids : ((g.definition.actions.flatMap (·.lasting)).map (·.id)).Nodup) (h : g.Played moves s) :
    ∃ log start, (∃ count seed, g.start count seed = .ok start) ∧ g.Lived start moves log s ∧
      g.Follows {} log { state := start } { state := s } := by
  induction h with
  | @start count seed s h =>
    have hkeeps : g.Keeps {} s := ⟨rfl, lasting_of_start h, by simp⟩
    exact ⟨[], s, ⟨count, seed, h⟩, .start, .refl hkeeps⟩
  | @move moves s r m res hprior hgame hmove ih =>
    subst hgame
    obtain ⟨log, start, hstart, hlived, hfollows⟩ := ih
    obtain ⟨q, hcomes, -, hres⟩ := Rules.comesTo_of_makeMove hmove
    obtain ⟨x, as, ds, hx, hsetups, hretells, hmade⟩ :=
      Rules.follows_of_comesTo hids hfollows.keeps hcomes
    refine ⟨_, start, hstart,
      hlived.move rfl hmove hx hsetups hretells hmade.unfolds hres, ?_⟩
    have hall := hfollows.trans hmade
    have hstamped := hall.unfolds.trans (.stamp (.here { state := q.state.stamp }))
    rw [List.append_nil] at hstamped
    rw [hres]
    exact ⟨hstamped, hall.orderly, hall.keeps.due, hall.keeps.lasting, hall.keeps.declared⟩

/-- Suppose that no two lasting effects share an id.  Then every run has annals.  They can be cut
anywhere: the game has been somewhere by then, and wherever that was, the state lists exactly those
who are active according to the annals, in the order of their setups.  From its setup to the first
boundary of its duration, every activation is among them once, and at that boundary it is torn down,
in its turn; it is listed neither before nor after, and torn down at no other time. -/
theorem lasting_of_played
    (hids : ((g.definition.actions.flatMap (·.lasting)).map (·.id)).Nodup) (h : g.Played moves s) :
    ∃ log start, (∃ count seed, g.start count seed = .ok start) ∧ g.Lived start moves log s ∧
      (∀ before later, log = before ++ later →
        (∃ p, g.Unfolds before { state := start } p ∧ g.Unfolds later p { state := s }) ∧
        (∀ p, g.Unfolds before { state := start } p →
          p.state.lasting = (Roster.tellAll {} before).active.map Activation.entry) ∧
        (Roster.tellAll {} before).active.Pairwise (fun a b => a.number < b.number)) ∧
      ∀ before a after, log = before ++ .setup a :: after → a.Lifetime before after := by
  obtain ⟨log, start, ⟨count, seed, hstart⟩, hlived, hfollows⟩ := h.exists_lived hids
  refine ⟨log, start, ⟨count, seed, hstart⟩, hlived, fun before later hcut => ⟨?_, ?_, ?_⟩, ?_⟩
  · exact hfollows.unfolds.split hcut
  · intro p hbefore
    exact hbefore.lasting (o := {}) (lasting_of_start hstart)
  · have horderly := hfollows.orderly
    rw [hcut] at horderly
    exact (Roster.sound_empty.tellAll (Roster.orderly_append.1 horderly).1).active
  · rintro before a after rfl
    exact hfollows.orderly.lifetime hfollows.keeps.due

/-- The trench that is dug when the alarm is over is the only one that lasts. -/
theorem lasting_of_played_bivouac :
    ∃ log start before a after, Rules.bivouac.game.Lived start Move.bivouac log Stay.bivouac.2 ∧
      log = before ++ .setup a :: after ∧ a.Lifetime before after ∧ a.effect.id = "trench" ∧
      Stay.bivouac.2.lasting = [a.entry] := by
  have hids : ((Rules.bivouac.game.definition.actions.flatMap (·.lasting)).map (·.id)).Nodup := by
    decide +kernel
  have hstart : Rules.bivouac.game.start 2 0 = .ok .bivouac := eq_ok_getD (by decide +kernel)
  have htold : Rules.bivouac.game.Told (Stay.chronicle .bivouac) Move.bivouac Stay.bivouac.1
      Stay.bivouac.2 := told_getD rfl hstart (by decide +kernel)
  obtain ⟨log, start, -, hlived, hmoments, hlifetimes⟩ := lasting_of_played hids htold.played
  obtain ⟨⟨p, hbefore, hlater⟩, hlists, -⟩ := hmoments log [] (List.append_nil log).symm
  have hall := hbefore.trans hlater
  rw [List.append_nil] at hall
  have hlasting : (Roster.tellAll {} log).active.map Activation.entry = Stay.bivouac.2.lasting :=
    (hlists _ hall).symm
  have hlength : Stay.bivouac.2.lasting.length = 1 := by decide +kernel
  rw [← hlasting, List.length_map] at hlength
  obtain ⟨a, ha⟩ := List.length_eq_one_iff.1 hlength
  rw [ha] at hlasting
  have hset : a ∈ ({} : Roster).active ∨ .setup a ∈ log := Roster.setup_of_active (by simp [ha])
  obtain ⟨before, after, hcut⟩ := List.append_of_mem (hset.resolve_left (by simp))
  have hid : Stay.bivouac.2.lasting.map (·.id) = ["trench"] := by decide +kernel
  rw [← hlasting] at hid
  exact ⟨log, start, before, a, after, hlived, hcut, hlifetimes _ _ _ hcut, (List.cons.inj hid).1,
    hlasting.symm⟩

end Game

end Tabletop
