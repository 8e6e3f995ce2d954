import Tabletop.Proofs.Repeats
import Tabletop.Proofs.TurnOrder.ActiveSeat
import Tabletop.Proofs.TurnOrder.Seats
import Tabletop.Proofs.Play.Table

/-!
# Which seats come into play

Nobody plays but the seats of a game and the seats that its turn order lists.  Every action is taken
by the active seat or by seats that are looked up in the game, lasting effects stay with the seat
that took the action, and events tell of these seats; so no state that is reached mentions any
other.

Listed seats are not looked up, though.  If one of them is not a seat of the game, it becomes active
all the same when it is its turn.

Main statement: `Game.active_of_played`, with a trio that two can start.
-/

namespace Tabletop

variable {known : Seat → Prop}

/-! ## Who takes an action -/

/-- Seats that are sorted and listed once each are the seats that were listed. -/
theorem Seat.mem_sortedOnce {seat : Seat} {seats : List Seat} :
    seat ∈ sortedOnce seats ↔ seat ∈ seats :=
  mem_eraseReps.trans (List.mergeSort_perm seats le).mem_iff

namespace SeatSelector

variable {count : Nat} {active seat : Seat} {seats : List Seat}

/-- Seats that are looked up by indices are seats of the game. -/
theorem lt_of_seatsAt :
    ∀ {indices : List Int} {seats : List Seat}, seatsAt count indices = .ok seats →
      ∀ seat ∈ seats, seat.toNat < count
  | [], _, h => by
    cases h
    nofun
  | i :: is, seats, h => by
    unfold seatsAt at h
    cases hfirst : Seat.ofIndex? i count with
    | none =>
      rw [hfirst] at h
      cases h
    | some first =>
      rw [hfirst] at h
      obtain ⟨rest, hrest, h⟩ := bind_eq_ok h
      cases h
      intro seat hseat
      rcases List.mem_cons.1 hseat with rfl | hseat
      · exact Seat.lt_of_ofIndex? hfirst
      · exact lt_of_seatsAt hrest seat hseat

/-- A seat that is looked up by a scalar is a seat of the game. -/
theorem lt_of_seatOf {x : Scalar} (h : seatOf count x = .ok seat) : seat.toNat < count := by
  unfold seatOf at h
  split at h
  · split at h
    · rename_i hseat
      cases h
      exact Seat.lt_of_ofIndex? hseat
    · cases h
  · cases h

/-- Seats that are looked up by scalars are seats of the game. -/
theorem lt_of_seatsOf :
    ∀ {xs : List Scalar} {seats : List Seat}, seatsOf count xs = .ok seats →
      ∀ seat ∈ seats, seat.toNat < count
  | [], _, h => by
    cases h
    nofun
  | x :: xs, seats, h => by
    obtain ⟨first, hfirst, h⟩ := bind_eq_ok h
    obtain ⟨rest, hrest, h⟩ := bind_eq_ok h
    cases h
    intro seat hseat
    rcases List.mem_cons.1 hseat with rfl | hseat
    · exact lt_of_seatOf hfirst
    · exact lt_of_seatsOf hrest seat hseat

/-- A selector means the active seat and seats of the game. -/
theorem mem_of_named {sel : SeatSelector} {b : Bindings}
    (h : sel.named active count b = .ok seats) (hseat : seat ∈ seats) :
    seat = active ∨ seat.toNat < count := by
  cases sel with
  | active =>
    cases h
    exact .inl (List.mem_singleton.1 hseat)
  | any =>
    cases h
    exact .inr (Seat.lt_of_mem_all hseat)
  | allOther =>
    cases h
    exact .inr (Seat.lt_of_mem_all (List.mem_filter.1 hseat).1)
  | id seat' => exact .inr (lt_of_seatsAt h seat hseat)
  | ids seats' =>
    cases seats' with
    | nil => cases h
    | cons first rest => exact .inr (lt_of_seatsAt h seat hseat)
  | binding name =>
    right
    unfold named at h
    dsimp only at h
    split at h
    · cases h
    · exact lt_of_seatsOf h seat hseat
    · exact lt_of_seatsOf h seat hseat
    · cases h

/-- The one seat that a selector means is the active seat or a seat of the game. -/
theorem of_resolveOne {sel : SeatSelector} {action : ActionId} {b : Bindings}
    (h : sel.resolveOne action active count b = .ok seat) : seat = active ∨ seat.toNat < count := by
  obtain ⟨resolved, hresolved, h⟩ := bind_eq_ok h
  split at h
  · rename_i seat'
    cases h
    unfold resolve at hresolved
    split at hresolved
    · rename_i named hnamed
      have hmem : seat ∈ Seat.sortedOnce named := by
        rw [Except.ok.inj hresolved]
        exact List.mem_singleton_self _
      exact mem_of_named hnamed (Seat.mem_sortedOnce.1 hmem)
    · cases hresolved
  · cases h

end SeatSelector

/-! ## Resolving a move -/

/-- All seats are known that a resolved move mentions. -/
structure Resolution.Seated (known : Seat → Prop) (x : Resolution) : Prop where
  session : x.session.Seated known
  executor : known x.executor
  special : ∀ e, x.special = some e → known e.2

namespace Plan

variable {p : Plan} {r : Rules} {s : State} {m : Move} {a : Action} {x y : Performance}

/-- An action is taken for a known seat. -/
theorem known_executor {g : Game} {free special : Bool} (hs : s.Seated known)
    (h : make g s m a free special = .ok p) : known p.executor := by
  obtain ⟨executor, hseats, h⟩ := bind_eq_ok h
  obtain ⟨-, -, h⟩ := bind_eq_ok h
  obtain ⟨-, -, h⟩ := bind_eq_ok h
  obtain ⟨holds, -, h⟩ := bind_eq_ok h
  obtain ⟨-, -, h⟩ := bind_eq_ok h
  obtain ⟨⟨cost, stages, payment⟩, -, h⟩ := bind_eq_ok h
  cases h
  obtain ⟨-, -, hseats⟩ := bind_eq_ok hseats
  obtain ⟨-, -, hseats⟩ := bind_eq_ok hseats
  obtain ⟨actors, -, hseats⟩ := bind_eq_ok hseats
  obtain ⟨executor', hexecutor, hseats⟩ := bind_eq_ok hseats
  obtain ⟨-, -, hseats⟩ := bind_eq_ok hseats
  cases hseats
  rcases SeatSelector.of_resolveOne (liftM_eq_ok hexecutor) with rfl | hseat
  · exact hs.active
  · exact hs.existing executor hseat

/-- The effects of a plan mention known seats only. -/
theorem seated_of_runEffects {cause : Cause} {root : String} {effects : List Effect}
    (hp : known p.executor) (hx : x.session.Seated known)
    (h : p.runEffects r cause root effects x = .ok y) : y.session.Seated known := by
  have hrun :=
    Session.run_asks x.session (p.setting r cause) (p.pathStart ++ root) p.bindings effects
  unfold runEffects at h
  cases hsession : x.session.run (p.setting r cause) (p.pathStart ++ root) p.bindings effects with
  | error halt =>
    rw [hsession] at h
    cases h
  | ok session =>
    rw [hsession] at h hrun
    cases h
    exact Proceeded.seated hrun hp hx

/-- Paying for a plan mentions known seats only. -/
theorem seated_of_pay (hp : known p.executor) (hx : x.session.Seated known)
    (h : p.pay r x = .ok y) : y.session.Seated known := by
  unfold pay at h
  split at h
  · exact seated_of_runEffects hp hx h
  · cases h
    exact hx

/-- The stages of a plan mention known seats only, if what comes after each stage does. -/
theorem seated_of_runStages (hp : known p.executor) {after : Nat → Performance → Check Performance}
    (hafter : ∀ i x y, x.session.Seated known → after i x = .ok y → y.session.Seated known) :
    ∀ {stages : List Stage} {i : Nat} {x y : Performance}, x.session.Seated known →
      p.runStages r after i stages x = .ok y → y.session.Seated known
  | [], _, _, _, hx, h => by
    cases h
    exact hx
  | stage :: stages, i, x, y, hx, h => by
    obtain ⟨x₁, hstage, h⟩ := bind_eq_ok h
    obtain ⟨x₂, hbetween, h⟩ := bind_eq_ok h
    exact seated_of_runStages hp hafter
      (hafter i x₁ x₂ (seated_of_runEffects hp hx hstage) hbetween) h

/-- Carrying out a special activity as a whole mentions known seats only. -/
theorem seated_of_runWhole (hp : known p.executor) (hx : x.session.Seated known)
    (h : p.runWhole r x = .ok y) : y.session.Seated known := by
  obtain ⟨x', hpaid, h⟩ := bind_eq_ok h
  refine seated_of_runStages hp (fun i x y hx hsame => ?_) (seated_of_pay hp hx hpaid) h
  cases hsame
  exact hx

end Plan

namespace Rules

variable {r : Rules} {s : State} {m : Move} {x : Resolution} {p q : Progress}

/-- A special activity at a place of its host mentions known seats only. -/
theorem seated_of_sideline {special : Option (Accompaniment Plan)}
    (hspecial : ∀ c, special = some c → known c.special.executor) {timing : Timing}
    {afterStage : Option Nat} {x y : Performance} (hx : x.session.Seated known)
    (h : r.sideline special timing afterStage x = .ok y) : y.session.Seated known := by
  unfold sideline at h
  split at h
  · rename_i c
    unfold Accompaniment.runAt at h
    split at h
    · exact Plan.seated_of_runWhole (hspecial c rfl) hx h
    · cases h
      exact hx
  · cases h
    exact hx

/-- A move that is resolved mentions known seats only. -/
theorem seated_of_resolve (hs : s.Seated known) (h : r.resolve s m = .ok x) : x.Seated known := by
  obtain ⟨a, grant, host, special, y, -, -, -, -, hhost, hspecial, hy, rfl⟩ := resolve_eq_ok_iff.1 h
  have hexecutor := Plan.known_executor hs hhost
  have hside : ∀ c, special = some c → known c.special.executor := by
    rintro c rfl
    unfold planCompound at hspecial
    split at hspecial
    · obtain ⟨planned, hplanned, hspecial⟩ := bind_eq_ok hspecial
      cases hspecial
      obtain ⟨-, -, hplanned⟩ := bind_eq_ok hplanned
      split at hplanned
      · cases hplanned
      · obtain ⟨plan, hplan, hplanned⟩ := bind_eq_ok hplanned
        cases hplanned
        exact Plan.known_executor hs hplan
    · cases hspecial
  refine ⟨?_, hexecutor, ?_⟩
  · obtain ⟨x₁, hpaid, hy⟩ := bind_eq_ok hy
    obtain ⟨x₂, hbefore, hy⟩ := bind_eq_ok hy
    obtain ⟨x₃, hstages, hy⟩ := bind_eq_ok hy
    have h₁ := Plan.seated_of_pay hexecutor (x := { session := { state := s } }) ⟨hs, nofun⟩ hpaid
    have h₂ := seated_of_sideline hside h₁ hbefore
    have h₃ := Plan.seated_of_runStages hexecutor
      (fun _ _ _ hx h => seated_of_sideline hside hx h) h₂ hstages
    exact seated_of_sideline hside h₃ hy
  · intro e he
    obtain ⟨c, hc, rfl⟩ := Option.map_eq_some_iff.1 he
    exact hside c hc

/-! ## Triggers -/

/-- A fold mentions known seats only if each of its steps does. -/
theorem seated_of_foldlM {γ : Type} {f : Progress → γ → Tracked Progress} {l : List γ}
    (hf : ∀ c ∈ l, ∀ p q, p.state.Seated known → f p c = .ok q → q.state.Seated known)
    (hp : p.state.Seated known) (h : l.foldlM f p = .ok q) : q.state.Seated known := by
  induction l generalizing p with
  | nil =>
    cases h
    exact hp
  | cons c l ih =>
    rw [List.foldlM_cons] at h
    obtain ⟨p', hstep, h⟩ := bind_eq_ok h
    exact ih (fun c' hc' => hf c' (List.mem_cons_of_mem _ hc'))
      (hf c List.mem_cons_self p p' hp hstep) h

/-- A trigger that fires runs for a known seat, and so do those that react to it. -/
theorem seated_of_react {depth : UInt32} {onward : Option (Event → Progress → Tracked Progress)}
    (honward : ∀ next, onward = some next → ∀ e, e.About known → ∀ p q, p.state.Seated known →
      next e p = .ok q → q.state.Seated known)
    {e : Event} (he : e.About known) {t : Trigger} (hp : p.state.Seated known)
    (h : t.react r depth onward e p = .ok q) : q.state.Seated known := by
  obtain ⟨fires, -, h⟩ := bind_eq_ok h
  cases fires with
  | false =>
    cases h
    exact hp
  | true =>
    cases onward with
    | none => cases h
    | some next =>
      obtain ⟨⟨p', events⟩, hfire, h⟩ := bind_eq_ok h
      obtain ⟨x, hx, hfire⟩ := bind_eq_ok hfire
      cases hfire
      -- A trigger runs for the seat that the event is about, or else for the active seat.
      have hactor : known (Trigger.actor e p.state) := by
        unfold Trigger.actor
        cases hseat : e.seat? with
        | none => exact hp.active
        | some seat => exact he seat hseat
      have hran := Tabletop.seated_of_runEffects hactor hp (attempt_eq_ok hx)
      exact seated_of_foldlM (fun e' he' => honward next rfl e' (hran.events e' he')) hran.state h

/-- The triggers of a level mention known seats only, by induction on the levels that are left. -/
theorem seated_of_dispatchAt :
    ∀ {left : Nat} {e : Event} {p q : Progress}, e.About known → p.state.Seated known →
      r.dispatchAt left e p = .ok q → q.state.Seated known := by
  intro left
  induction left with
  | zero =>
    intro e p q he hp h
    exact seated_of_foldlM
      (fun t _ p q hp h => seated_of_react (fun _ hnext => by cases hnext) he hp h)
      hp h
  | succ left ih =>
    intro e p q he hp h
    refine seated_of_foldlM
      (fun t _ p q hp h => seated_of_react (fun next hnext => ?_) he hp h) hp h
    cases hnext
    exact fun e he p q hp h => ih he hp h

/-- Triggers that react to events about known seats mention known seats only. -/
theorem seated_of_dispatch {events : List Event} (hevents : ∀ e ∈ events, e.About known)
    (hp : p.state.Seated known) (h : r.dispatch events p = .ok q) : q.state.Seated known :=
  seated_of_foldlM (fun e he _ _ hp h => seated_of_dispatchAt (hevents e he) hp h) hp h

/-! ## Lasting effects -/

/-- Lasting effects that are set up for a known seat mention known seats only, and so do their
events. -/
theorem seated_of_activateLasting {a : Action} {executor : Seat} {b : Bindings}
    (hexecutor : known executor) :
    ∀ {ls : List LastingEffect} {p q : Progress} {events : List Event}, p.state.Seated known →
      r.activateLasting a executor b ls p = .ok (q, events) →
        q.state.Seated known ∧ ∀ e ∈ events, e.About known
  | [], p, q, events, hp, h => by
    cases h
    exact ⟨hp, nofun⟩
  | l :: ls, p, q, events, hp, h => by
    obtain ⟨x, hx, h⟩ := bind_eq_ok h
    obtain ⟨⟨p', events'⟩, hrest, h⟩ := bind_eq_ok h
    cases h
    have hran := Tabletop.seated_of_runEffects hexecutor hp (attempt_eq_ok hx)
    have hactive : (withLasting x.state
        { id := l.id, action := a.id, duration := l.duration, executor }).Seated known := by
      refine ⟨hran.state.populated, hran.state.existing, hran.state.active, fun l' hl' => ?_,
        hran.state.card⟩
      rcases List.mem_append.1 hl' with hold | hnew
      · exact hran.state.lasting l' hold
      · rw [List.mem_singleton.1 hnew]
        exact hexecutor
    obtain ⟨hq, hevents⟩ := seated_of_activateLasting hexecutor hactive hrest
    refine ⟨hq, fun e he => ?_⟩
    rcases List.mem_append.1 he with hfirst | hlater
    · exact hran.events e hfirst
    · exact hevents e hlater

/-- Lasting effects of known seats mention known seats only when they are torn down. -/
theorem seated_of_tearDown :
    ∀ {ls : List ActiveLasting} {p q : Progress}, (∀ l ∈ ls, known l.executor) →
      p.state.Seated known → r.tearDown ls p = .ok q → q.state.Seated known
  | [], p, q, _, hp, h => by
    cases h
    exact hp
  | l :: ls, p, q, hls, hp, h => by
    obtain ⟨declared, -, h⟩ := bind_eq_ok h
    obtain ⟨x, hx, h⟩ := bind_eq_ok h
    obtain ⟨p', hdispatch, h⟩ := bind_eq_ok h
    have hran := Tabletop.seated_of_runEffects (hls l List.mem_cons_self) hp (attempt_eq_ok hx)
    exact seated_of_tearDown (fun l' hl' => hls l' (List.mem_cons_of_mem _ hl'))
      (seated_of_dispatch hran.events hran.state hdispatch) h

/-- Lasting effects mention known seats only when they expire. -/
theorem seated_of_expire {d : Duration} (hp : p.state.Seated known) (h : r.expire d p = .ok q) :
    q.state.Seated known := by
  refine seated_of_tearDown (fun l hl => hp.lasting l (List.mem_filter.1 hl).1) ?_ h
  exact ⟨hp.populated, hp.existing, hp.active, fun l hl => hp.lasting l (List.mem_filter.1 hl).1,
    hp.card⟩

/-! ## Going on -/

/-- Leaving a phase mentions known seats only. -/
theorem seated_of_leavePhase (hp : p.state.Seated known) (h : r.leavePhase p = .ok q) :
    q.state.Seated known := by
  obtain ⟨p₁, hdispatch, h⟩ := bind_eq_ok h
  obtain ⟨p₂, hexpire, h⟩ := bind_eq_ok h
  cases h
  have hexit : ∀ e ∈ [Event.phaseExit p.state.phase], e.About known :=
    List.forall_mem_singleton.2 (.of_none rfl)
  have hleft := seated_of_expire (seated_of_dispatch hexit hp hdispatch) hexpire
  exact hleft.congr rfl rfl rfl hleft.card

variable (hd : ∀ seat ∈ r.definition.order.seats, known seat)
include hd

/-- Starting a turn mentions known seats only, since the next seat is a known one. -/
theorem seated_of_startTurn {t : State} (hs : s.Seated known) (h : r.startTurn s = .ok t) :
    t.Seated known := by
  obtain ⟨phase, -, h⟩ := bind_eq_ok h
  cases h
  have hrotated := hs.rotate hd
  exact hrotated.congr rfl rfl rfl hrotated.card

/-- Closing a turn mentions known seats only. -/
theorem seated_of_closeTurn (hp : p.state.Seated known) (h : r.closeTurn p = .ok q) :
    q.state.Seated known := by
  obtain ⟨p₁, hended, h⟩ := bind_eq_ok h
  obtain ⟨p₂, hexpire, h⟩ := bind_eq_ok h
  obtain ⟨s, hstart, h⟩ := bind_eq_ok h
  have hend : ∀ e ∈ [Event.turnEnd p.state.turn p.state.active], e.About known :=
    List.forall_mem_singleton.2 (.of_some rfl hp.active)
  have hover := seated_of_expire (seated_of_dispatch hend hp hended) hexpire
  have hreset : (p₂.state.resetUsage .turn).Seated known := hover.congr rfl rfl rfl hover.card
  have hnext := seated_of_startTurn hd hreset (attempt_eq_ok hstart)
  have hstarted : ∀ e ∈ [Event.phaseEnter s.phase, .turnStart s.turn s.active], e.About known :=
    List.forall_mem_cons.2 ⟨.of_none rfl, List.forall_mem_singleton.2 (.of_some rfl hnext.active)⟩
  exact seated_of_dispatch hstarted hnext h

/-- Ending a turn mentions known seats only. -/
theorem seated_of_endTurn (hp : p.state.Seated known) (h : r.endTurn p = .ok q) :
    q.state.Seated known := by
  obtain ⟨p', hleave, hclose⟩ := bind_eq_ok h
  exact seated_of_closeTurn hd (seated_of_leavePhase hp hleave) hclose

/-- Entering a phase mentions known seats only. -/
theorem seated_of_enterPhase {phase : PhaseId} (hp : p.state.Seated known)
    (h : r.enterPhase phase p = .ok q) : q.state.Seated known := by
  have hentered : { p.state with phase }.Seated known := hp.congr rfl rfl rfl hp.card
  exact seated_of_dispatch (List.forall_mem_singleton.2 (.of_none rfl)) (hentered.syncActive hd) h

/-- A transition mentions known seats only. -/
theorem seated_of_transition (hp : p.state.Seated known) (h : r.transition p = .ok q) :
    q.state.Seated known := by
  have hskipped := hp.skipStuckSeat hd
  cases transits_of_transition h with
  | resume _ hleave h =>
    subst h
    have hleft := seated_of_leavePhase hp hleave
    exact hleft.congr rfl rfl rfl hleft.card
  | skip _ _ _ h =>
    subst h
    exact hskipped
  | skipAll _ _ _ h => exact seated_of_endTurn hd hskipped h
  | enter _ _ hleave _ h => exact seated_of_enterPhase hd (seated_of_leavePhase hp hleave) h
  | close _ _ hleave _ h => exact seated_of_closeTurn hd (seated_of_leavePhase hp hleave) h

omit hd

/-! ## Making a move -/

/-- An action that a known seat takes mentions known seats only, and so do its events. -/
theorem seated_of_take {a : Action} {executor : Seat} {params : Dict Selection}
    {events : List Event} (hexecutor : known executor) (hp : p.state.Seated known)
    (h : r.take a executor params p = .ok (q, events)) :
    q.state.Seated known ∧ ∀ e ∈ events, e.About known := by
  obtain ⟨⟨p', events'⟩, hactivate, h⟩ := bind_eq_ok h
  obtain ⟨hactive, hevents⟩ := seated_of_activateLasting hexecutor hp hactivate
  cases h
  exact ⟨hactive.congr rfl rfl rfl hactive.card, hevents⟩

/-- The special activity of a move mentions known seats only, and so do its events. -/
theorem seated_of_takeSpecial {events : List Event} (hx : x.Seated known)
    (hp : p.state.Seated known) (h : r.takeSpecial m x p = .ok (q, events)) :
    q.state.Seated known ∧ ∀ e ∈ events, e.About known := by
  unfold takeSpecial at h
  split at h
  · rename_i a executor c hspecial _
    exact seated_of_take (hx.special (a, executor) hspecial) hp h
  · cases h
    exact ⟨hp, nofun⟩

/-- The actions of a move mention known seats only, and so do their events. -/
theorem seated_of_takeActions {events : List Event} (hx : x.Seated known)
    (h : r.takeActions m x = .ok (q, events)) :
    q.state.Seated known ∧ ∀ e ∈ events, e.About known := by
  obtain ⟨⟨p₁, host⟩, hhost, h⟩ := bind_eq_ok h
  obtain ⟨⟨p₂, special⟩, hspecial, h⟩ := bind_eq_ok h
  obtain ⟨h₁, hhost⟩ := seated_of_take hx.executor hx.session.state hhost
  obtain ⟨h₂, hspecial⟩ := seated_of_takeSpecial hx h₁ hspecial
  cases h
  constructor
  · cases x.grant with
    | none => exact h₂
    | some id => exact h₂.consumeGrant id
  · intro e he
    rcases List.mem_append.1 he with he | he
    · exact (List.mem_append.1 he).elim (hx.session.events e) (hhost e)
    · exact hspecial e he

/-- Carrying out a move of the active seat mentions known seats only. -/
theorem seated_of_carryOut (hs : s.Seated known) (hx : r.resolve s m = .ok x)
    (h : r.carryOut m s.active x = .ok p) : p.state.Seated known := by
  obtain ⟨⟨p₁, events⟩, htake, hreact⟩ := bind_eq_ok h
  obtain ⟨p₂, hevents, hresolved⟩ := bind_eq_ok hreact
  obtain ⟨h₁, habout⟩ := seated_of_takeActions (seated_of_resolve hs hx) htake
  have hactions : ∀ e ∈ (actionsTaken x).map (fun a => Event.actionResolved a s.active),
      e.About known :=
    List.forall_mem_map.2 (fun _ _ => .of_some rfl hs.active)
  exact seated_of_dispatch hactions (seated_of_dispatch habout h₁ hevents) hresolved

/-- Wherever a move comes to, known seats only are mentioned. -/
theorem seated_of_comesTo (hd : ∀ seat ∈ r.definition.order.seats, known seat) (hs : s.Seated known)
    (h : r.ComesTo s m q) : q.state.Seated known := by
  obtain ⟨x, p, p', k, hx, hcarried, hout, hpasses⟩ := h
  have hafter := (seated_of_carryOut hs hx hcarried).afterMove hd m
  refine hpasses.invariant (P := fun s => s.Seated known)
    (fun htransition hp => seated_of_transition hd hp htransition) ?_
  rcases setsOut_iff.1 hout with ⟨-, hended⟩ | ⟨-, rfl⟩
  · exact seated_of_endTurn hd hafter hended
  · exact hafter

end Rules

/-! ## A game -/

namespace Game

variable {g : Game} {moves : List Move} {s : State}

/-- A blank state mentions the seats of the game and those that the turn order lists. -/
theorem seated_of_blank {count : Nat} {seed : UInt64} {known : Seat → Prop}
    (hcount : ∀ seat : Seat, seat.toNat < count → known seat)
    (hd : ∀ seat ∈ g.definition.order.seats, known seat)
    (h : g.definition.blank count seed = .ok s) : s.Seated known := by
  have hblank := State.isBlank h
  obtain ⟨-, hsize, hpositive, -, -⟩ := blank_eq_ok h
  have hcard : ∀ card, s.order.card? = some card → card.Seated known := by
    intro card hcard
    rw [hblank.order] at hcard
    unfold Tracker.initial at hcard
    split at hcard
    · cases hcard
    · cases hcard
    · rename_i rules hrules
      cases hcard
      refine ⟨fun seat hseat => ?_, nofun⟩
      dsimp only at hseat
      split at hseat
      · exact hcount seat (Seat.lt_of_mem_all hseat)
      · rw [hrules] at hd
        exact hd seat hseat
    · cases hcard
  -- What the turn order designates can be told before anybody is active.
  have hfirst : { s with active := ⟨0⟩ }.Seated known :=
    ⟨hsize ▸ hpositive, hsize ▸ hcount, hcount ⟨0⟩ hpositive, hblank.lasting ▸ nofun, hcard⟩
  have hactive : known s.active := by
    rw [hblank.active]
    cases hseat : (Tracker.initial g.definition.order count).designated? g.definition.order
      count with
    | none => exact hcount ⟨0⟩ hpositive
    | some seat =>
      rw [← hblank.order, ← hsize] at hseat
      exact hfirst.known_of_designated hd hseat
  exact hfirst.withActive hactive

/-- A game starts with known seats only. -/
theorem seated_of_start {count : Nat} {seed : UInt64} {known : Seat → Prop}
    (hcount : ∀ seat : Seat, seat.toNat < count → known seat)
    (hd : ∀ seat ∈ g.definition.order.seats, known seat) (h : g.start count seed = .ok s) :
    s.Seated known := by
  obtain ⟨blank, hblank, h⟩ := bind_eq_ok h
  obtain ⟨t, hsetup, h⟩ := bind_eq_ok h
  cases h
  have hseated := seated_of_blank hcount hd hblank
  have hset : t.Seated known := by
    unfold setUp at hsetup
    split at hsetup
    · cases hsetup
      exact hseated
    · obtain ⟨x, hx, hsetup⟩ := bind_eq_ok hsetup
      cases hsetup
      have hran := Tabletop.seated_of_runEffects hseated.active hseated hx
      exact hran.state.syncActive hd
  exact hset.congr rfl rfl rfl hset.card

/-- What holds of the seats of a game and of those that its turn order lists holds of all seats that
a state of the game mentions. -/
theorem Played.seated {known : Seat → Prop} (hd : ∀ seat ∈ g.definition.order.seats, known seat)
    (h : g.Played moves s) (hcount : ∀ seat : Seat, seat.toNat < s.seatCount → known seat) :
    s.Seated known := by
  induction h with
  | @start count seed s h =>
    obtain ⟨blank, hblank, htouched⟩ := touched_of_start h
    have hsize := htouched.changed.seatCount.trans (blank_eq_ok hblank).2.1
    exact seated_of_start (hsize ▸ hcount) hd h
  | move hprior hgame hmove ih =>
    subst hgame
    obtain ⟨q, hcomes, -, hres⟩ := Rules.comesTo_of_makeMove hmove
    -- Seats neither come nor go, so what is known before the move is what is known after it.
    have hsize : q.state.seatCount = _ := (Rules.changed_of_comesTo hcomes).seatCount
    rw [hres] at hcount ⊢
    have hreached := Rules.seated_of_comesTo hd (ih (hsize ▸ hcount)) hcomes
    exact hreached.congr rfl rfl rfl hreached.card

/-- Unless grants are pending, the active seat is the one that the turn order designates, and an
order that lists seats designates one. -/
theorem Played.designated? (h : g.Played moves s) (hnone : s.order.inGrantWindow = false) :
    (∀ seat, s.order.designated? g.definition.order s.seatCount = some seat → s.active = seat) ∧
      (g.definition.order.seats ≠ [] →
        s.order.designated? g.definition.order s.seatCount = some s.active) := by
  obtain ⟨history, hreached⟩ := h.exists_reached
  cases horder : g.definition.order with
  | cardDriven rules =>
    obtain ⟨card, hcard⟩ := hreached.onCard horder
    have hgrants : card.grants = [] := by
      simpa [Tracker.inGrantWindow, hcard.order, Tracker.card?, CardState.inGrantWindow] using hnone
    have hactive : s.order.designated? (.cardDriven rules) s.seatCount = some s.active := by
      rw [hcard.order]
      show card.seat?.or card.seatOrder.head? = some s.active
      rw [seat?_of_onCard hcard hgrants]
      rfl
    exact ⟨fun seat hseat => Option.some.inj (hactive.symm.trans hseat), fun _ => hactive⟩
  | fixed seats =>
    obtain ⟨index, hindex, hseat⟩ := hreached.fixed horder
    refine ⟨(hreached.inLine horder rfl).active, fun hlisted => ?_⟩
    have hnonempty : seats ≠ [] := hlisted
    simp [Tracker.designated?, hindex, hnonempty, hseat hnonempty]
  | roundRobin => exact ⟨(hreached.inLine horder rfl).active, fun hlisted => absurd rfl hlisted⟩
  | simultaneous => exact ⟨(hreached.inLine horder rfl).active, fun hlisted => absurd rfl hlisted⟩

/-- In every state of a game the active seat is a seat of the game or one that the turn order lists.
Unless grants are pending, it is a seat of the game exactly if the turn order designates no
other. -/
theorem active_of_played (h : g.Played moves s) :
    (s.active.toNat < s.seatCount ∨ s.active ∈ g.definition.order.seats) ∧
      (s.order.inGrantWindow = false →
        (s.active.toNat < s.seatCount ↔
          ∀ seat, s.order.designated? g.definition.order s.seatCount = some seat →
            seat.toNat < s.seatCount)) := by
  have hseated : s.Seated fun seat => seat.toNat < s.seatCount ∨ seat ∈ g.definition.order.seats :=
    h.seated (fun _ => .inr) (fun _ => .inl)
  refine ⟨hseated.active, fun hnone => ?_⟩
  obtain ⟨hdesignated, hlists⟩ := h.designated? hnone
  constructor
  · intro hactive seat hseat
    rw [← hdesignated seat hseat]
    exact hactive
  · intro hseats
    rcases hseated.active with hactive | hlisted
    · exact hactive
    · exact hseats s.active (hlists (List.ne_nil_of_mem hlisted))

end Game

/-! ## A trio -/

/-- A game for three, which lets two play: the third seat comes first. -/
def Definition.trio : Definition :=
  { Definition.minimal "trio" with
    order := .fixed [⟨2⟩, ⟨0⟩, ⟨1⟩]
    actions := [{ id := "wait" }] }

/-- The rules of that game, under the usual limits. -/
def Rules.trio : Rules := { game := .ofDefinition .trio }

/-- Where two seats start that game. -/
def State.trio : State := (Rules.trio.game.start 2 0).toOption.getD default

/-- Two seats start that game with the third seat active. -/
theorem Game.active_of_played_trio :
    Rules.trio.game.Played [] .trio ∧ State.trio.seatCount = 2 ∧ State.trio.active = ⟨2⟩ ∧
      State.trio.active ∈ Rules.trio.game.definition.order.seats ∧
      State.trio.order.inGrantWindow = false ∧
      ¬∀ seat, State.trio.order.designated? Rules.trio.game.definition.order State.trio.seatCount =
        some seat → seat.toNat < State.trio.seatCount := by
  have hstart : Rules.trio.game.start 2 0 = .ok .trio := eq_ok_getD (by decide +kernel)
  have hplayed : Rules.trio.game.Played [] .trio := .start hstart
  obtain ⟨hcount, hactive⟩ : State.trio.seatCount = 2 ∧ State.trio.active = ⟨2⟩ := by decide +kernel
  have hmissing : ¬State.trio.active.toNat < State.trio.seatCount := by
    rw [hcount, hactive]
    decide
  have hnone : State.trio.order.inGrantWindow = false := by decide +kernel
  obtain ⟨hlisted, hdesignates⟩ := Game.active_of_played hplayed
  exact ⟨hplayed, hcount, hactive, hlisted.resolve_left hmissing, hnone,
    mt (hdesignates hnone).2 hmissing⟩

end Tabletop
