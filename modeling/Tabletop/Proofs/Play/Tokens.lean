import Tabletop.Proofs.Effect.Tokens
import Tabletop.Proofs.Play.Steps

/-!
# The tokens of a game

Between two decisions tokens come and go by effects only.  Everything else leaves them where they
are, but for the reveal at the end of a card, which takes a token from one zone to another.

Main statements: `Rules.Runs.accounted` for runs of effects, `Rules.Plays.accounted` for whole
moves.
-/

namespace Tabletop

open Relation (ReflTransGen)

/-! ## The turn order -/

namespace Store

/-- The first token of a zone that has been taken leaves all the others. -/
theorem kinds_takeFront {s store : Store} {zone : ZoneId} {t : Token} {ts : List Token}
    (h : s.takeFront zone 1 = (t :: ts, store)) : t.kind ::ₘ store.kinds = s.kinds := by
  unfold takeFront at h
  cases htokens : s.tokens? zone with
  | none =>
    rw [htokens] at h
    cases h
  | some tokens =>
    rw [htokens] at h
    cases tokens with
    | nil => cases h
    | cons first rest =>
      cases h
      have hperm := allTokens_replace rest [t] [] htokens (.refl _) (.refl _)
      simpa using kinds_eq_of_perm _ _ hperm

/-- Taking tokens from the front takes no zone away. -/
theorem hasZone_takeFront {s store : Store} {zone : ZoneId} {ts : List Token} {n : Nat}
    (h : s.takeFront zone n = (ts, store)) {other : ZoneId} (hother : s.hasZone other = true) :
    store.hasZone other = true := by
  unfold takeFront at h
  cases htokens : s.tokens? zone with
  | none =>
    rw [htokens] at h
    cases h
    exact hother
  | some tokens =>
    rw [htokens] at h
    cases h
    exact s.hasZone_replace _ _ hother

end Store

namespace State

variable {s : State} {d : Definition}

/-- The zone to which cards are revealed is there. -/
def HasPlayedZone (s : State) (d : Definition) : Prop :=
  ∀ rules zone, d.order = .cardDriven rules → rules.playedZone = some zone →
    s.store.hasZone zone = true

/-- The zone to which cards are revealed stays there as long as all tokens are accounted for. -/
theorem HasPlayedZone.of_accounted {t : State} {trace : List TraceEntry} (hs : s.HasPlayedZone d)
    (h : Accounted trace s t) : t.HasPlayedZone d :=
  fun rules zone horder hzone => h.hasZone (hs rules zone horder hzone)

/-- A reveal takes no token off the table, if there is a zone for it. -/
theorem reveal_accounted (source : ZoneId) {target : ZoneId}
    (htarget : s.store.hasZone target = true) : Accounted [] s (s.reveal source target) := by
  unfold reveal
  split
  · exact .refl s
  · rename_i token tokens store htaken
    have hzone := Store.hasZone_takeFront htaken htarget
    obtain ⟨put, hput⟩ : ∃ put, store.insert? target token .front = some put := by
      rw [Store.insert?, Store.tokens?_of_hasZone hzone]
      exact ⟨_, rfl⟩
    rw [hput]
    have hkinds := Store.kinds_takeFront htaken
    rw [← Store.kinds_insert? hput] at hkinds
    refine .still hkinds rfl (fun zone h => ?_) (fun _ he => by cases he)
    exact Store.hasZone_insert? hput (Store.hasZone_takeFront htaken h)

/-- The end of a card accounts for all tokens without a trace, if the token it reveals has a zone to
go to. -/
theorem endCard_accounted (h : s.HasPlayedZone d) : Accounted [] s (s.endCard d) := by
  unfold endCard
  split
  · rename_i rules card horder _
    dsimp only
    split
    · rename_i source target _ htarget
      have hrevealed := reveal_accounted (s := { s with order := .cardDriven card.nextCard }) source
        (h rules target horder htarget)
      exact hrevealed.after rfl rfl
    · exact .same rfl rfl
  · exact .refl s

/-- Synchronising the active seat accounts for all tokens. -/
theorem syncActive_accounted (s : State) (d : Definition) : Accounted [] s (s.syncActive d) := by
  unfold syncActive
  split
  · exact .same rfl rfl
  · exact .refl s

/-- Settling a card accounts for all tokens, if the zone to which cards are revealed is there. -/
theorem settleCard_accounted (rules : CardRules) (h : s.HasPlayedZone d) :
    Accounted [] s (s.settleCard d rules).2 := by
  unfold settleCard
  split
  · exact (endCard_accounted h).trans (syncActive_accounted _ d)
  · exact syncActive_accounted s d

/-- What a move does to the turn order accounts for all tokens, if the zone to which cards are
revealed is there. -/
theorem afterMove_accounted (m : Move) (h : s.HasPlayedZone d) :
    Accounted [] s (s.afterMove d m).2 := by
  unfold afterMove
  split
  · rename_i submitted _ _
    exact (syncActive_accounted _ d).after rfl rfl
  · rename_i rules card _ _
    have hsettled := settleCard_accounted
      (s := { s with order := .cardDriven (card.afterMove rules s.active m) }) rules h
    exact hsettled.after rfl rfl
  · exact syncActive_accounted s d

/-- Passing over a seat that is stuck accounts for all tokens, if the zone to which cards are
revealed is there. -/
theorem skipStuckSeat_accounted (h : s.HasPlayedZone d) :
    Accounted [] s (s.skipStuckSeat d).2 := by
  unfold skipStuckSeat
  split
  · exact .refl s
  · rename_i rules _
    have hsettled := settleCard_accounted
      (s := { s with order := s.order.modifyCard (fun c => c.skip s.active) }) rules h
    exact hsettled.after rfl rfl

/-- Handing over to the next seat accounts for all tokens. -/
theorem rotate_accounted (s : State) (d : Definition) : Accounted [] s (s.rotate d) := by
  unfold rotate
  cases s.order with
  | roundRobin => exact (syncActive_accounted _ d).after rfl rfl
  | fixed index => exact (syncActive_accounted _ d).after rfl rfl
  | simultaneous submitted => exact (syncActive_accounted _ d).after rfl rfl
  | cardDriven card => exact syncActive_accounted s d

end State

/-! ## Steps -/

/-- A step of a run accounts for the tokens from the session before. -/
theorem Steps.accounted {s : Setting} {x y : Session} (h : Steps s x y) :
    x.Accounted s.tracing y := by
  cases h with
  | spend => exact ⟨[], .refl _, fun _ => (List.append_nil _).symm⟩
  | alter halters => exact halters.accounted

/-- A run of effects accounts for the tokens from the session before. -/
theorem Reaches.accounted {s : Setting} {x y : Session} (h : Reaches s x y) :
    x.Accounted s.tracing y := by
  induction h with
  | refl => exact .refl x
  | tail _ hstep ih => exact ih.trans hstep.accounted

namespace Rules

variable {r : Rules}

/-- A run of effects under the rules accounts for the tokens from the session before. -/
theorem Runs.accounted {x y : Session} (h : r.Runs x y) : x.Accounted r.limits.tracing y := by
  induction h with
  | refl => exact .refl x
  | tail _ hstep ih =>
    obtain ⟨setting, hunder, hstep⟩ := hstep
    have haccounted := hstep.accounted
    rw [hunder.tracing] at haccounted
    exact ih.trans haccounted

end Rules

/-- A progress whose trace accounts for the tokens from another progress on. -/
def Progress.Accounted (tracing : Bool) (p q : Progress) : Prop :=
  ∃ trace, Tabletop.Accounted trace p.state q.state ∧
    (tracing = true → q.journal.trace = p.journal.trace ++ trace)

namespace Rules

variable {r : Rules} {p q : Progress}

/-- A step that runs no effects leaves no trace. -/
theorem accounted_withState {s : State} (h : Accounted [] p.state s) :
    p.Accounted r.limits.tracing (p.withState s) :=
  ⟨[], h, fun _ => (List.append_nil _).symm⟩

/-- A step of a game accounts for the tokens, if the zone to which cards are revealed is there. -/
theorem Step.accounted (h : r.Step p q) (hplayed : p.state.HasPlayedZone r.definition) :
    p.Accounted r.limits.tracing q := by
  cases h with
  | effects hruns =>
    obtain ⟨trace, haccounted, htrace⟩ := hruns.accounted
    refine ⟨trace, haccounted, fun htracing => ?_⟩
    change p.journal.trace ++ _ = _
    rw [htrace htracing]
    rfl
  | fire => exact ⟨[], .refl _, fun _ => (List.append_nil _).symm⟩
  | activate => exact accounted_withState (.same rfl rfl)
  | expire => exact accounted_withState (.same rfl rfl)
  | use => exact accounted_withState (.same rfl rfl)
  | reset => exact accounted_withState (.same rfl rfl)
  | consume => exact accounted_withState (.same rfl rfl)
  | follow m => exact accounted_withState (State.afterMove_accounted m hplayed)
  | skip => exact accounted_withState (State.skipStuckSeat_accounted hplayed)
  | startTurn hstart =>
    obtain ⟨phase, -, hstart⟩ := bind_eq_ok hstart
    cases hstart
    have hrotated := p.state.rotate_accounted r.definition
    exact accounted_withState (hrotated.trans (.same rfl rfl))
  | resume => exact accounted_withState (.same rfl rfl)
  | enterPhase => exact accounted_withState ((State.syncActive_accounted _ _).after rfl rfl)

/-- Whatever is played accounts for the tokens. -/
theorem Plays.accounted (h : r.Plays p q) (hplayed : p.state.HasPlayedZone r.definition) :
    p.Accounted r.limits.tracing q := by
  induction h with
  | refl => exact ⟨[], .refl _, fun _ => (List.append_nil _).symm⟩
  | @tail q q' _ hstep ih =>
    obtain ⟨trace, haccounted, htrace⟩ := ih
    obtain ⟨trace', haccounted', htrace'⟩ := hstep.accounted (hplayed.of_accounted haccounted)
    refine ⟨trace ++ trace', haccounted.trans haccounted', fun htracing => ?_⟩
    rw [htrace' htracing, htrace htracing, List.append_assoc]

end Rules

end Tabletop
