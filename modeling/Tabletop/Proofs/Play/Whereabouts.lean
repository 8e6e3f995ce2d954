import Tabletop.Proofs.Effect.Whereabouts
import Tabletop.Proofs.Play.Stacking

/-!
# What the trace of a move tells of the tokens

A trace is kept to be replayed.  Replaying it shows a token where it is as long as the trace notes
every leg of its way.  Effects do, in whatever part of a move they run.  But where a card ends, the
next one is revealed, and no trace notes that.  So the trace of a move tells where a token has gone
exactly if no card ends in the course of the move by which that token is revealed.

Main statement: `Game.trail_of_reached`, with a theatre whose scenes come on stage unnoticed.
-/

namespace Tabletop

open Relation (ReflTransGen)

/-! ## Reveals in a story -/

/-- The reveals of a story begin at one place and end at others. -/
def RevealsFrom (story : List Occurrence) (source : ZoneId) : Prop :=
  ∀ token source' target, .revealed token source' target ∈ story →
    source' = source ∧ target ≠ some source

namespace RevealsFrom

variable {story : List Occurrence} {x : Occurrence} {source : ZoneId} {id : TokenId}
  {a b : Option ZoneId}

/-- The reveals of a story go on from the same place when one more occurrence comes before them. -/
theorem tail (h : RevealsFrom (x :: story) source) : RevealsFrom story source :=
  fun token source' target hmem => h token source' target (List.mem_cons_of_mem x hmem)

/-- From the place of the reveals no noted way leads on if all together lead on from elsewhere. -/
theorem not_trail (h : RevealsFrom story source) (hne : a ≠ some source)
    (htrail : Trail a (legsOf story id) b) :
    ¬ Trail (some source) (legsIn (entriesOf story) id) b := by
  induction story with
  | nil => exact fun hnoted => hne (Eq.trans htrail hnoted.symm)
  | cons x story ih =>
    cases x with
    | noted e =>
      rw [legsOf_noted_cons] at htrail
      change ¬ Trail _ (legsIn (e :: entriesOf story) id) b
      rw [legsIn_cons]
      cases hleg : e.change.leg? id with
      | none =>
        rw [hleg] at htrail
        exact ih h.tail htrail
      | some leg =>
        rw [hleg] at htrail
        exact fun hnoted => hne (htrail.1.trans hnoted.1.symm)
    | revealed token source' target =>
      by_cases hid : token = id
      · subst hid
        obtain ⟨rfl, -⟩ := h token source' target List.mem_cons_self
        rw [legsOf_revealed_self] at htrail
        exact absurd htrail.1 hne
      · rw [legsOf_revealed_ne _ _ _ hid] at htrail
        exact ih h.tail htrail

/-- If all the legs of a token's way lead from one place to another, then those that are noted do
exactly if none is a reveal. -/
theorem trail_iff (h : RevealsFrom story source) (htrail : Trail a (legsOf story id) b) :
    Trail a (legsIn (entriesOf story) id) b ↔
      ∀ source' target, .revealed id source' target ∉ story := by
  induction story generalizing a with
  | nil => exact iff_of_true htrail fun _ _ => List.not_mem_nil
  | cons x story ih =>
    cases x with
    | noted e =>
      have hreveals : (∀ source' target, .revealed id source' target ∉ .noted e :: story) ↔
          ∀ source' target, .revealed id source' target ∉ story := by simp
      rw [legsOf_noted_cons] at htrail
      change Trail _ (legsIn (e :: entriesOf story) id) b ↔ _
      rw [hreveals, legsIn_cons]
      cases hleg : e.change.leg? id with
      | none =>
        rw [hleg] at htrail
        exact ih h.tail htrail
      | some leg =>
        rw [hleg] at htrail
        exact (and_iff_right htrail.1).trans (ih h.tail htrail.2)
    | revealed token source' target =>
      by_cases hid : token = id
      · subst hid
        obtain ⟨rfl, hne⟩ := h token source' target List.mem_cons_self
        rw [legsOf_revealed_self] at htrail
        obtain ⟨rfl, htrail⟩ := htrail
        exact iff_of_false (h.tail.not_trail hne htrail) fun hnone => hnone _ _ List.mem_cons_self
      · rw [legsOf_revealed_ne _ _ _ hid] at htrail
        refine (ih h.tail htrail).trans ?_
        simp [Ne.symm hid]

end RevealsFrom

/-- What is not noted is not in a trace. -/
theorem not_mem_noted {x : Occurrence} (h : x.entry? = none) (trace : List TraceEntry) :
    x ∉ trace.map .noted := by
  intro hmem
  obtain ⟨e, -, rfl⟩ := List.mem_map.1 hmem
  cases h

/-! ## Reveals -/

namespace Store

/-- The reveal of the first token of a zone to another, if there is one. -/
def uncovers (s : Store) (source target : ZoneId) : List Occurrence :=
  match s.tokens source with
  | [] => []
  | token :: _ =>
    if source = target then []
    else [.revealed token.id source (if s.hasZone target then some target else none)]

variable {s : Store} {source target : ZoneId}

/-- A reveal is not among what a trace notes. -/
theorem entriesOf_uncovers : entriesOf (s.uncovers source target) = [] := by
  unfold uncovers
  split
  · rfl
  · split <;> rfl

/-- The reveal of a zone's first token is that of the token, if there is one, to a zone that is
there or to nowhere. -/
theorem mem_uncovers_iff {token : TokenId} {source' : ZoneId} {landing : Option ZoneId} :
    .revealed token source' landing ∈ s.uncovers source target ↔
      source' = source ∧ source ≠ target ∧ (s.tokens source).head?.map (·.id) = some token ∧
        landing = if s.hasZone target then some target else none := by
  unfold uncovers
  cases s.tokens source with
  | nil => simp
  | cons first rest =>
    by_cases hsame : source = target
    · simp [hsame]
    · dsimp only
      rw [if_neg hsame, List.mem_singleton, Occurrence.revealed.injEq, List.head?_cons,
        Option.map_some, Option.some.injEq]
      constructor
      · rintro ⟨rfl, rfl, rfl⟩
        exact ⟨rfl, hsame, rfl, rfl⟩
      · rintro ⟨rfl, -, rfl, rfl⟩
        exact ⟨rfl, rfl, rfl⟩

end Store

namespace State

variable {s t : State} {d : Definition} {source target : ZoneId} {m : Move}

/-- A token that is taken from one zone and put into another goes there, unseen. -/
theorem recounts_of_relocate {token : Token} {taken : Store} {place : Placement}
    (htaken : s.store.remove? source 0 = some (token, taken))
    (hput : taken.insert? target token place = some t.store) (hnext : t.nextToken = s.nextToken) :
    Recounts [.revealed token.id source (some target)] s t := by
  have hkinds := Store.kinds_eq_of_allTokens_perm (Store.allTokens_relocate htaken hput)
  refine .unnoted hkinds.le hnext rfl fun hs ht id => ?_
  obtain ⟨hbefore, hafter, hothers⟩ := Store.zoneOf?_relocate hs ht htaken hput
  by_cases hid : token.id = id
  · subst hid
    rw [legsOf_revealed_self]
    exact ⟨hbefore, hafter.symm⟩
  · rw [legsOf_revealed_ne _ _ _ hid]
    exact (hothers id (Ne.symm hid)).symm

/-- A token that is taken from one zone and put back there goes nowhere. -/
theorem recounts_of_putBack {token : Token} {taken : Store} {place : Placement}
    (htaken : s.store.remove? source 0 = some (token, taken))
    (hput : taken.insert? source token place = some t.store) (hnext : t.nextToken = s.nextToken) :
    Recounts [] s t := by
  have hkinds := Store.kinds_eq_of_allTokens_perm (Store.allTokens_relocate htaken hput)
  refine .unnoted hkinds.le hnext rfl fun hs ht id => ?_
  obtain ⟨hbefore, hafter, hothers⟩ := Store.zoneOf?_relocate hs ht htaken hput
  by_cases hid : id = token.id
  · subst hid
    exact hbefore.trans hafter.symm
  · exact (hothers id hid).symm

/-- A token that is taken from a zone and not put anywhere is gone. -/
theorem recounts_of_remove? {token : Token}
    (htaken : s.store.remove? source 0 = some (token, t.store))
    (hnext : t.nextToken = s.nextToken) :
    Recounts [.revealed token.id source none] s t := by
  have hkinds : t.store.kinds ≤ s.store.kinds := by
    rw [← Store.kinds_remove? htaken]
    exact Multiset.le_cons_self _ _
  refine .unnoted hkinds hnext rfl fun hs ht id => ?_
  by_cases hid : token.id = id
  · subst hid
    rw [legsOf_revealed_self]
    exact ⟨(Store.zoneOf?_eq_some_iff hs).2 ((Store.mem_ids_remove? htaken).2 (.inl ⟨rfl, rfl⟩)),
      (Store.zoneOf?_remove? hs htaken).symm⟩
  · rw [legsOf_revealed_ne _ _ _ hid]
    refine (Store.zoneOf?_eq_of_ids hs ht fun zone => ?_).symm
    exact ((Store.mem_ids_remove? htaken).trans
      ⟨fun h => h.resolve_left fun h => hid h.2.symm, .inr⟩).symm

/-- A reveal recounts where the revealed token goes. -/
theorem reveal_recounts (s : State) (source target : ZoneId) :
    Recounts (s.store.uncovers source target) s (s.reveal source target) := by
  cases htokens : s.store.tokens source with
  | nil =>
    rw [Store.uncovers, htokens, reveal_of_nil htokens]
    exact .same rfl rfl
  | cons token rest =>
    have hsource := Store.tokens?_of_cons htokens
    have htaken : s.store.remove? source 0 = some (token, s.store.replace source rest) := by
      simp [Store.remove?, hsource]
    have hstore : (s.reveal source target).store =
        ((s.store.replace source rest).insert? target token .front).getD
          (s.store.replace source rest) := store_reveal_of_cons hsource
    have hnext : (s.reveal source target).nextToken = s.nextToken := by
      unfold reveal
      split <;> rfl
    simp only [Store.uncovers, htokens]
    cases hput : (s.store.replace source rest).insert? target token .front with
    | some put =>
      rw [hput, Option.getD_some] at hstore
      rw [← hstore] at hput
      by_cases hsame : source = target
      · subst hsame
        rw [if_pos rfl]
        exact recounts_of_putBack htaken hput hnext
      · have hzone : s.store.hasZone target = true := by
          obtain ⟨tokens, htarget, -⟩ := Option.map_eq_some_iff.1 hput
          rw [Store.tokens?_replace_ne _ _ (Ne.symm hsame)] at htarget
          exact Store.hasZone_of_tokens? htarget
        rw [if_neg hsame, if_pos hzone]
        exact recounts_of_relocate htaken hput hnext
    | none =>
      rw [hput, Option.getD_none] at hstore
      rw [← hstore] at htaken
      have hnone := Option.map_eq_none_iff.1 hput
      have hne : source ≠ target := by
        rintro rfl
        rw [Store.tokens?_replace_self] at hnone
        cases hnone
      have hzone : ¬ s.store.hasZone target = true := by
        rw [Store.tokens?_replace_ne _ _ hne.symm] at hnone
        intro h
        rw [Store.tokens?_of_hasZone h] at hnone
        cases hnone
      rw [if_neg hne, if_neg hzone]
      exact recounts_of_remove? htaken hnext

/-- The reveal with which a card ends, if there is one. -/
def uncovers (s : State) (d : Definition) : List Occurrence :=
  match d.order with
  | .cardDriven rules =>
    match rules.drawZone, rules.playedZone with
    | some source, some target => s.store.uncovers source target
    | _, _ => []
  | _ => []

/-- The reveal with which a card ends is not among what a trace notes. -/
theorem entriesOf_uncovers (s : State) (d : Definition) : entriesOf (s.uncovers d) = [] := by
  unfold uncovers
  split
  · split
    · exact Store.entriesOf_uncovers
    · rfl
  · rfl

/-- A card that reveals from one zone to another uncovers the first token of the one. -/
theorem uncovers_of_reveals (h : d.Reveals source target) :
    s.uncovers d = s.store.uncovers source target := by
  obtain ⟨rules, horder, hsource, htarget⟩ := h
  simp only [uncovers, horder, hsource, htarget]

/-- What is uncovered when a card ends is the reveal that the definition says. -/
theorem reveals_of_mem_uncovers {x : Occurrence} (h : x ∈ s.uncovers d) :
    ∃ source target, d.Reveals source target ∧ x ∈ s.store.uncovers source target := by
  unfold uncovers at h
  split at h
  · rename_i rules horder
    split at h
    · rename_i source target hsource htarget
      exact ⟨source, target, ⟨rules, horder, hsource, htarget⟩, h⟩
    · cases h
  · cases h

/-- The end of a card recounts where the revealed token goes. -/
theorem endCard_recounts (hcard : s.order.card?.isSome = true) :
    Recounts (s.uncovers d) s (s.endCard d) := by
  obtain ⟨card, hcard⟩ := Option.isSome_iff_exists.1 hcard
  unfold endCard uncovers
  rw [Tracker.eq_of_card? hcard]
  cases d.order with
  | cardDriven rules =>
    dsimp only
    cases rules.drawZone with
    | none => exact .same rfl rfl
    | some source =>
      cases rules.playedZone with
      | none => exact .same rfl rfl
      | some target =>
        exact reveal_recounts { s with order := .cardDriven card.nextCard } source target
  | _ => exact .same rfl rfl

/-! ### The turn order -/

/-- Synchronising the active seat takes no token number. -/
@[simp] theorem syncActive_nextToken (s : State) (d : Definition) :
    (s.syncActive d).nextToken = s.nextToken := by
  unfold syncActive
  split <;> rfl

/-- The end of a card takes no token number. -/
@[simp] theorem endCard_nextToken (s : State) (d : Definition) :
    (s.endCard d).nextToken = s.nextToken := by
  unfold endCard reveal
  split
  · dsimp only
    split
    · split <;> rfl
    · rfl
  · rfl

/-- Settling a card takes no token number. -/
theorem settleCard_nextToken (s : State) (d : Definition) (rules : CardRules) :
    (s.settleCard d rules).2.nextToken = s.nextToken := by
  unfold settleCard
  split <;> simp

/-- What a move does to the turn order takes no token number. -/
theorem afterMove_nextToken (s : State) (d : Definition) (m : Move) :
    (s.afterMove d m).2.nextToken = s.nextToken := by
  unfold afterMove
  split
  · simp
  · rw [settleCard_nextToken]
  · simp

/-- Passing over a seat that is stuck takes no token number. -/
theorem skipStuckSeat_nextToken (s : State) (d : Definition) :
    (s.skipStuckSeat d).2.nextToken = s.nextToken := by
  unfold skipStuckSeat
  split
  · rfl
  · rw [settleCard_nextToken]

/-- Handing over to the next seat takes no token number. -/
theorem rotate_nextToken (s : State) (d : Definition) : (s.rotate d).nextToken = s.nextToken := by
  unfold rotate
  rw [syncActive_nextToken]
  split <;> rfl

/-- What ends the card recounts the reveal; what does not leaves the tokens alone. -/
theorem EndsCard.recounts {ends : Bool} (h : s.EndsCard d ends t)
    (hcard : ends = true → s.order.card?.isSome = true) (hnext : t.nextToken = s.nextToken) :
    Recounts (if ends then s.uncovers d else []) s t := by
  rcases h with ⟨rfl, hsame⟩ | ⟨rfl, hsame⟩
  · rw [if_pos rfl, ← List.append_nil (s.uncovers d)]
    refine (endCard_recounts (hcard rfl)).trans (.same hsame.store ?_)
    rw [hnext, endCard_nextToken]
  · exact .same hsame.store hnext

end State

/-! ## Moves -/

/-- A progress whose journal tells a story from another progress on. -/
structure Progress.Recounts (story : List Occurrence) (p q : Progress) : Prop where
  trace : q.journal.trace = p.journal.trace ++ entriesOf story
  recounts : Tabletop.Recounts story p.state q.state

namespace Progress.Recounts

variable {p q q' : Progress} {s : State} {story story' : List Occurrence}

/-- An empty story recounts that nothing has happened. -/
theorem refl (p : Progress) : Progress.Recounts [] p p :=
  ⟨(List.append_nil _).symm, .same rfl rfl⟩

/-- Two stories recount together what has happened in both parts. -/
theorem trans (h : Progress.Recounts story p q) (h' : Progress.Recounts story' q q') :
    Progress.Recounts (story ++ story') p q' where
  trace := by rw [h'.trace, h.trace, List.append_assoc, entriesOf_append]
  recounts := h.recounts.trans h'.recounts

/-- A state that is written down without a trace. -/
theorem withState (hentries : entriesOf story = []) (h : Tabletop.Recounts story p.state s) :
    Progress.Recounts story p (p.withState s) :=
  ⟨by rw [hentries, List.append_nil]; rfl, h⟩

end Progress.Recounts

/-- A progress whose trace tells all that has happened to the tokens from another progress on. -/
def Progress.Discloses (p q : Progress) : Prop :=
  ∃ trace : List TraceEntry, Progress.Recounts (trace.map .noted) p q

namespace Progress.Discloses

variable {p q q' : Progress} {s : State}

/-- A progress discloses that nothing has happened since. -/
theorem refl (p : Progress) : p.Discloses p := ⟨[], .refl p⟩

/-- What is disclosed in two parts is disclosed together. -/
theorem trans (h : p.Discloses q) (h' : q.Discloses q') : p.Discloses q' := by
  obtain ⟨trace, h⟩ := h
  obtain ⟨trace', h'⟩ := h'
  exact ⟨trace ++ trace', by rw [List.map_append]; exact h.trans h'⟩

/-- Where the tokens stay there is nothing to tell. -/
theorem withState (hstore : s.store = p.state.store) (hnext : s.nextToken = p.state.nextToken) :
    p.Discloses (p.withState s) :=
  ⟨[], .withState rfl (.same hstore hnext)⟩

end Progress.Discloses

namespace Rules

variable {r : Rules} {p q q' : Progress} {s u : State} {m : Move} {x : Resolution}

/-- The trace of a run of effects under rules recounts what happens to the tokens. -/
theorem Runs.recounted {x y : Session} (h : r.Runs x y)
    (htracing : r.limits.tracing = true) : x.Recounted y := by
  induction h with
  | refl => exact .same rfl rfl
  | tail _ hstep ih =>
    obtain ⟨setting, hunder, hstep⟩ := hstep
    exact ih.trans (Reaches.recounted (.single hstep) (hunder.tracing.trans htracing))

/-- Triggers and lasting effects disclose what they do to the tokens. -/
theorem Stirs.discloses (h : r.Stirs p q) (htracing : r.limits.tracing = true) : p.Discloses q := by
  induction h with
  | refl => exact .refl p
  | tail _ hstep ih =>
    refine ih.trans ?_
    cases hstep with
    | effects hruns =>
      obtain ⟨trace, htrace, hrecounts⟩ := hruns.recounted htracing
      refine ⟨trace, ?_, hrecounts⟩
      rw [entriesOf_noted]
      change _ ++ _ = _
      rw [htrace]
      rfl
    | fire => exact ⟨[], (List.append_nil _).symm, .same rfl rfl⟩
    | activate => exact .withState rfl rfl
    | expire => exact .withState rfl rfl
    | use => exact .withState rfl rfl
    | reset => exact .withState rfl rfl

/-- Under a trace, carrying a resolved move out discloses all that happens to the tokens. -/
theorem carryOut_discloses {mover : Seat} (htracing : r.limits.tracing = true)
    (hx : r.resolve s m = .ok x) (h : r.carryOut m mover x = .ok p) :
    Progress.Discloses { state := s } p := by
  obtain ⟨⟨p₁, events⟩, htake, hreact⟩ := bind_eq_ok h
  obtain ⟨p₀, htakes, htaken⟩ :=
    takeActions_takes (runs_of_resolve hx) (special_of_resolve hx) htake
  have hspent : p₀.Discloses p₁ := by
    rw [htaken]
    cases x.grant with
    | none => exact .refl _
    | some id => exact .withState rfl rfl
  exact ((htakes.stirs.discloses htracing).trans hspent).trans
    ((reactTo_stirs hreact).discloses htracing)

/-- Under a trace, leaving a phase discloses all that happens to the tokens. -/
theorem leavePhase_discloses (htracing : r.limits.tracing = true) (h : r.leavePhase p = .ok q) :
    p.Discloses q := by
  obtain ⟨p', hripples, rfl⟩ := leavePhase_eq_ok h
  exact (hripples.stirs.discloses htracing).trans (.withState rfl rfl)

/-- Starting a turn takes no token number. -/
theorem startTurn_nextToken (h : r.startTurn s = .ok u) : u.nextToken = s.nextToken := by
  obtain ⟨phase, -, h⟩ := bind_eq_ok h
  cases h
  exact s.rotate_nextToken r.definition

/-- Under a trace, ending a turn discloses all that happens to the tokens. -/
theorem endTurn_discloses (htracing : r.limits.tracing = true) (h : r.endTurn p = .ok q) :
    p.Discloses q := by
  obtain ⟨p', s, hbefore, hstart, hafter⟩ := endTurn_eq_ok h
  have hstarted : p'.Discloses (p'.withState s) :=
    .withState (startTurn_sameTable hstart).store (startTurn_nextToken hstart)
  exact ((hbefore.discloses htracing).trans hstarted).trans (hafter.discloses htracing)

/-- Under a trace, entering a phase discloses all that happens to the tokens. -/
theorem enterPhase_discloses {phase : PhaseId} (htracing : r.limits.tracing = true)
    (h : r.enterPhase phase p = .ok q) : p.Discloses q := by
  have hentered : p.Discloses (p.withState ({ p.state with phase }.syncActive r.definition)) :=
    .withState (State.SameTable.syncActive _ _).store (State.syncActive_nextToken _ _)
  exact hentered.trans ((dispatch_ripples h).stirs.discloses htracing)

/-- Setting out discloses what happens to the tokens, but for the reveal if it ends the card. -/
theorem recounts_of_setsOut (htracing : r.limits.tracing = true) (h : r.SetsOut m p q) :
    ∃ trace : List TraceEntry, Progress.Recounts
      ((if (p.state.afterMove r.definition m).1.cardEnded then p.state.uncovers r.definition
        else []) ++ trace.map .noted) p q := by
  have hfollowed := (p.state.afterMove_endsCard r.definition m).recounts
    State.isSome_card?_of_afterMove (p.state.afterMove_nextToken r.definition m)
  have hafter : (p.withState (p.state.afterMove r.definition m).2).Discloses q := by
    rcases setsOut_iff.1 h with ⟨-, h⟩ | ⟨-, rfl⟩
    · exact endTurn_discloses htracing h
    · exact .refl _
  obtain ⟨trace, hafter⟩ := hafter
  refine ⟨trace, .trans (.withState ?_ hfollowed) hafter⟩
  split
  · exact p.state.entriesOf_uncovers r.definition
  · rfl

/-- A transition discloses what happens to the tokens, but for the reveal if it ends the card. -/
theorem recounts_of_transition (htracing : r.limits.tracing = true) (h : r.transition p = .ok q) :
    (r.SkipsCard p.state ∧ ∃ trace : List TraceEntry,
        Progress.Recounts (p.state.uncovers r.definition ++ trace.map .noted) p q) ∨
      ¬ r.SkipsCard p.state ∧ p.Discloses q := by
  have hskip (hnone : p.state.suspended = []) (hcards : r.definition.order.cards?.isSome = true)
      (hafter : (p.withState (p.state.skipStuckSeat r.definition).2).Discloses q) :
      (r.SkipsCard p.state ∧ ∃ trace : List TraceEntry,
          Progress.Recounts (p.state.uncovers r.definition ++ trace.map .noted) p q) ∨
        ¬ r.SkipsCard p.state ∧ p.Discloses q := by
    have hskipped := (p.state.skipStuckSeat_endsCard r.definition).recounts
      State.isSome_card?_of_skipStuckSeat (p.state.skipStuckSeat_nextToken r.definition)
    cases hended : (p.state.skipStuckSeat r.definition).1.cardEnded with
    | true =>
      rw [hended, if_pos rfl] at hskipped
      obtain ⟨trace, hafter⟩ := hafter
      exact .inl ⟨⟨hnone, hcards, hended⟩, trace,
        .trans (.withState (p.state.entriesOf_uncovers r.definition) hskipped) hafter⟩
    | false =>
      rw [hended, if_neg Bool.false_ne_true] at hskipped
      have hquiet : p.Discloses (p.withState (p.state.skipStuckSeat r.definition).2) :=
        ⟨[], .withState rfl hskipped⟩
      refine .inr ⟨fun hskips => ?_, hquiet.trans hafter⟩
      rw [hskips.ended] at hended
      cases hended
  cases transits_of_transition h with
  | resume hlast hleave h =>
    subst h
    refine .inr ⟨fun hskips => ?_,
      (leavePhase_discloses htracing hleave).trans (.withState rfl rfl)⟩
    rw [hskips.none] at hlast
    cases hlast
  | skip hnone hcards _ h =>
    subst h
    exact hskip hnone hcards (.refl _)
  | skipAll hnone hcards _ h => exact hskip hnone hcards (endTurn_discloses htracing h)
  | enter _ hcards hleave _ h =>
    refine .inr ⟨fun hskips => ?_,
      (leavePhase_discloses htracing hleave).trans (enterPhase_discloses htracing h)⟩
    rw [hskips.cards] at hcards
    cases hcards
  | close _ hcards hleave _ h =>
    refine .inr ⟨fun hskips => ?_, endTurn_discloses htracing (bind_ok hleave h)⟩
    rw [hskips.cards] at hcards
    cases hcards

/-- Setting out leads to one progress only. -/
theorem SetsOut.unique (h : r.SetsOut m p q) (h' : r.SetsOut m p q') : q = q' := by
  unfold SetsOut at h h'
  split at h
  · rename_i hended
    rw [if_pos hended] at h'
    exact Except.ok.inj (h.symm.trans h')
  · rename_i hended
    rw [if_neg hended] at h'
    exact h.trans h'.symm

/-- A transition on the way ends a card by passing over a seat. -/
def SkipsOn (r : Rules) (p : Progress) (u : State) : Prop :=
  ∃ k p', r.Passes k p p' ∧ r.atDecision p'.state = .ok false ∧ r.SkipsCard p'.state ∧ p'.state = u

/-- Where there is something to decide, there are no transitions. -/
theorem not_skipsOn (h : r.atDecision p.state = .ok true) : ¬ r.SkipsOn p u := by
  rintro ⟨k, p', hpasses, hundecided, -, -⟩
  cases hpasses with
  | none =>
    rw [h] at hundecided
    cases hundecided
  | next hundecided' _ _ =>
    rw [h] at hundecided'
    cases hundecided'

/-- A card is ended by the first transition, or after it. -/
theorem skipsOn_iff (hundecided : r.atDecision p.state = .ok false)
    (htransition : r.transition p = .ok p') :
    r.SkipsOn p u ↔ r.SkipsCard p.state ∧ p.state = u ∨ r.SkipsOn p' u := by
  constructor
  · rintro ⟨k, q, hpasses, hq, hskips, hu⟩
    cases hpasses with
    | none => exact .inl ⟨hskips, hu⟩
    | next _ htransition' hrest =>
      obtain rfl := Except.ok.inj (htransition.symm.trans htransition')
      exact .inr ⟨_, q, hrest, hq, hskips, hu⟩
  · rintro (⟨hskips, hu⟩ | ⟨k, q, hpasses, hq, hskips, hu⟩)
    · exact ⟨0, p, .none p, hundecided, hskips, hu⟩
    · exact ⟨k + 1, q, .next hundecided htransition hpasses, hq, hskips, hu⟩

/-- The way to the next decision discloses what happens to the tokens, but for the reveals where it
ends a card. -/
theorem recounts_of_passes {k : Nat} (htracing : r.limits.tracing = true) (h : r.Passes k p q)
    (hdecided : r.atDecision q.state = .ok true) :
    ∃ story, Progress.Recounts story p q ∧ ∀ x : Occurrence, x.entry? = none →
      (x ∈ story ↔ ∃ u, r.SkipsOn p u ∧ x ∈ u.uncovers r.definition) := by
  induction h with
  | none p =>
    refine ⟨[], .refl p, fun x _ => iff_of_false List.not_mem_nil ?_⟩
    rintro ⟨u, hskips, -⟩
    exact not_skipsOn hdecided hskips
  | next hundecided htransition _ ih =>
    obtain ⟨story, hstory, hreveals⟩ := ih hdecided
    rcases recounts_of_transition htracing htransition with
      ⟨hskips, trace, hfirst⟩ | ⟨hskips, trace, hfirst⟩
    · refine ⟨_, hfirst.trans hstory, fun x hx => ?_⟩
      rw [List.mem_append, List.mem_append, hreveals x hx]
      simp only [skipsOn_iff hundecided htransition, not_mem_noted hx, or_false, hskips, true_and,
        or_and_right, exists_or, exists_eq_left']
    · refine ⟨_, hfirst.trans hstory, fun x hx => ?_⟩
      rw [List.mem_append, hreveals x hx]
      simp only [skipsOn_iff hundecided htransition, not_mem_noted hx, false_or, hskips, false_and]

/-- The cards that end in the course of a move: one by the move itself, or those that end on the way
to the next decision. -/
theorem endsCardIn_iff {p' : Progress} (hx : r.resolve s m = .ok x)
    (hcarried : r.carryOut m s.active x = .ok p) (hout : r.SetsOut m p p') :
    r.EndsCardIn s m u ↔
      (p.state.afterMove r.definition m).1.cardEnded = true ∧ p.state = u ∨ r.SkipsOn p' u := by
  constructor
  · intro h
    cases h with
    | move hx' hcarried' hended =>
      obtain rfl := Except.ok.inj (hx.symm.trans hx')
      obtain rfl := Except.ok.inj (hcarried.symm.trans hcarried')
      exact .inl ⟨hended, rfl⟩
    | pass hcomes hundecided hskips =>
      obtain ⟨x', p₀, p₁, k, hx', hcarried', hout', hpasses⟩ := hcomes
      obtain rfl := Except.ok.inj (hx.symm.trans hx')
      obtain rfl := Except.ok.inj (hcarried.symm.trans hcarried')
      obtain rfl := hout.unique hout'
      exact .inr ⟨k, _, hpasses, hundecided, hskips, rfl⟩
  · rintro (⟨hended, rfl⟩ | ⟨k, q, hpasses, hundecided, hskips, rfl⟩)
    · exact .move hx hcarried hended
    · exact .pass ⟨x, p, p', k, hx, hcarried, hout, hpasses⟩ hundecided hskips

/-- The trace of a move, with the reveals of the cards that it ends put in where they belong,
recounts what happens to the tokens. -/
theorem exists_story_of_makeMove {res : MoveResult} (htracing : r.limits.tracing = true)
    (h : r.makeMove s m = .ok res) :
    ∃ story, res.trace = some (entriesOf story) ∧ Recounts story s res.state ∧
      ∀ x : Occurrence, x.entry? = none →
        (x ∈ story ↔ ∃ u, r.EndsCardIn s m u ∧ x ∈ u.uncovers r.definition) := by
  obtain ⟨x, q, hx, hcommit, rfl⟩ := makeMove_eq_ok h
  obtain ⟨p, hcarried, hgo⟩ := commit_eq_ok hcommit
  obtain ⟨p', hout, hadvance⟩ := goOn_eq_ok hgo
  obtain ⟨k, -, hpasses, hdecided⟩ := advanceWithin_eq_ok_iff.1 hadvance
  obtain ⟨taken, htaken⟩ := carryOut_discloses htracing hx hcarried
  obtain ⟨closed, hclosed⟩ := recounts_of_setsOut htracing hout
  obtain ⟨story, hstory, hreveals⟩ := recounts_of_passes htracing hpasses hdecided
  have hall := (htaken.trans hclosed).trans hstory
  refine ⟨_, (if_pos htracing).trans (congrArg some hall.trace), ?_, fun y hy => ?_⟩
  · have hstamped : Recounts [] q.state q.state.stamp := .same rfl rfl
    simpa only [List.append_nil] using hall.recounts.trans hstamped
  · simp only [List.mem_append, hreveals y hy, not_mem_noted hy, false_or, or_false,
      endsCardIn_iff hx hcarried hout]
    cases (p.state.afterMove r.definition m).1.cardEnded with
    | true => simp only [if_true, true_and, or_and_right, exists_or, exists_eq_left']
    | false => simp

/-- A card ends in the course of a move, and by that the token of an id is revealed to another
place. -/
def Uncovers (r : Rules) (s : State) (m : Move) (id : TokenId) : Prop :=
  ∃ u source target, r.EndsCardIn s m u ∧ r.definition.Reveals source target ∧ source ≠ target ∧
    (u.store.tokens source).head?.map (·.id) = some id

/-- Where a story has the reveals of a move, it has one of a token exactly if the move uncovers
it. -/
theorem uncovers_iff {story : List Occurrence} {id : TokenId}
    (h : ∀ x : Occurrence, x.entry? = none →
      (x ∈ story ↔ ∃ u, r.EndsCardIn s m u ∧ x ∈ u.uncovers r.definition)) :
    (∃ source landing, .revealed id source landing ∈ story) ↔ r.Uncovers s m id := by
  constructor
  · rintro ⟨source, landing, hmem⟩
    obtain ⟨u, hends, hmem⟩ := (h _ rfl).1 hmem
    obtain ⟨source', target, hreveals, hmem⟩ := State.reveals_of_mem_uncovers hmem
    obtain ⟨rfl, hne, hfirst, -⟩ := Store.mem_uncovers_iff.1 hmem
    exact ⟨u, source, target, hends, hreveals, hne, hfirst⟩
  · rintro ⟨u, source, target, hends, hreveals, hne, hfirst⟩
    have hmem := Store.mem_uncovers_iff.2 ⟨rfl, hne, hfirst, rfl⟩
    rw [← State.uncovers_of_reveals hreveals] at hmem
    exact ⟨source, _, (h _ rfl).2 ⟨u, hends, hmem⟩⟩

/-- All reveals of a move begin in the one zone from which cards are drawn. -/
theorem exists_revealsFrom {story : List Occurrence}
    (h : ∀ x : Occurrence, x.entry? = none →
      (x ∈ story ↔ ∃ u, r.EndsCardIn s m u ∧ x ∈ u.uncovers r.definition)) :
    ∃ source, RevealsFrom story source := by
  have hreveals (token : TokenId) (source : ZoneId) (landing : Option ZoneId)
      (hmem : .revealed token source landing ∈ story) :
      ∃ target, r.definition.Reveals source target ∧ landing ≠ some source := by
    obtain ⟨u, -, hmem⟩ := (h _ rfl).1 hmem
    obtain ⟨source', target, hreveals, hmem⟩ := State.reveals_of_mem_uncovers hmem
    obtain ⟨rfl, hne, -, rfl⟩ := Store.mem_uncovers_iff.1 hmem
    refine ⟨target, hreveals, ?_⟩
    split
    · exact fun h => hne (Option.some.inj h).symm
    · exact nofun
  by_cases hany : ∃ source target, r.definition.Reveals source target
  · obtain ⟨source, target, rules, horder, hdraw, -⟩ := hany
    refine ⟨source, fun token source' landing hmem => ?_⟩
    obtain ⟨target', ⟨rules', horder', hdraw', -⟩, hne⟩ := hreveals _ _ _ hmem
    obtain rfl := TurnOrder.cardDriven.inj (horder.symm.trans horder')
    obtain rfl := Option.some.inj (hdraw.symm.trans hdraw')
    exact ⟨rfl, hne⟩
  · refine ⟨"", fun token source' landing hmem => ?_⟩
    obtain ⟨target, hreveals, -⟩ := hreveals _ _ _ hmem
    exact absurd ⟨source', target, hreveals⟩ hany

end Rules

namespace Game

variable {g : Game} {history : List TraceEntry} {s : State}

/-- Two traces note as many creations as they note one by one. -/
theorem length_createdIn_append (trace trace' : List TraceEntry) :
    (createdIn (trace ++ trace')).length =
      (createdIn trace).length + (createdIn trace').length := by
  rw [createdIn, List.filterMap_append, List.length_append]
  rfl

/-- In a state that is reached the tokens are numbered, if its history leaves numbers; whether or
not there is a zone to which cards are revealed. -/
theorem Reached.numbered_tokens (h : g.Reached history s)
    (hroom : (createdIn history).length < UInt64.size) :
    Numbered s.store.kinds s.nextToken ∧ s.nextToken.toNat = (createdIn history).length := by
  induction h with
  | start h =>
    obtain ⟨blank, hblank, haccounted⟩ := startChanges_accounted h
    have hbare := Definition.of_blank hblank
    have hzero : blank.nextToken.toNat = 0 := congrArg UInt64.toNat hbare.nextToken
    have hblanks : Numbered blank.store.kinds blank.nextToken := hbare.kinds ▸ .zero
    obtain ⟨hs, hnext⟩ := haccounted.numbered hblanks (by omega)
    exact ⟨hs, by omega⟩
  | @move history s r m res hprior hgame hmove ih =>
    rw [length_createdIn_append] at hroom ⊢
    obtain ⟨hs, hnext⟩ := ih (by omega)
    obtain ⟨story, htrace, hrecounts, -⟩ :=
      Rules.exists_story_of_makeMove rfl (Rules.makeMove_traced hmove)
    have hchanges : r.changes s m = entriesOf story := Option.some.inj htrace
    rw [hchanges] at hroom ⊢
    obtain ⟨hres, hnext', -⟩ := hrecounts hs (by omega)
    exact ⟨hres, hnext'.trans (by rw [hnext])⟩

/-- When a move is made in a state that is reached, and a trace is kept, the legs of a token's way
that the trace notes lead from where it was to where it is exactly if the move does not uncover it.
So the trace tells where each token is that is somewhere else than before, or has come or gone,
exactly if those that the move uncovers are all back in the end. -/
theorem trail_of_reached {r : Rules} (h : r.game.Reached history s) {m : Move} {res : MoveResult}
    (htracing : r.limits.tracing = true) (hmove : r.makeMove s m = .ok res) :
    ∃ trace, res.trace = some trace ∧
      ((createdIn (history ++ trace)).length < UInt64.size →
        s.store.Distinct ∧ res.state.store.Distinct ∧
        (∀ id, Trail (s.store.zoneOf? id) (legsIn trace id) (res.state.store.zoneOf? id) ↔
          ¬ r.Uncovers s m id) ∧
        ((∀ id, res.state.store.zoneOf? id ≠ s.store.zoneOf? id →
            Trail (s.store.zoneOf? id) (legsIn trace id) (res.state.store.zoneOf? id)) ↔
          ∀ id, r.Uncovers s m id → res.state.store.zoneOf? id = s.store.zoneOf? id)) := by
  obtain ⟨story, htrace, hrecounts, hreveals⟩ := Rules.exists_story_of_makeMove htracing hmove
  refine ⟨entriesOf story, htrace, fun hroom => ?_⟩
  rw [length_createdIn_append] at hroom
  obtain ⟨hs, hnext⟩ := h.numbered_tokens (by omega)
  obtain ⟨hres, -, htrails⟩ := hrecounts hs (by omega)
  obtain ⟨source, hfrom⟩ := Rules.exists_revealsFrom hreveals
  have hiff (id : TokenId) :
      Trail (s.store.zoneOf? id) (legsIn (entriesOf story) id) (res.state.store.zoneOf? id) ↔
        ¬ r.Uncovers s m id := by
    rw [hfrom.trail_iff (htrails id), ← Rules.uncovers_iff hreveals]
    simp only [not_exists]
  refine ⟨hs.nodup_ids, hres.nodup_ids, hiff, ?_⟩
  constructor
  · intro hall id huncovers
    by_contra hne
    exact (hiff id).1 (hall id hne) huncovers
  · intro hback id hne
    exact (hiff id).2 fun huncovers => hne (hback id huncovers)

end Game

/-! ## A theatre -/

/-- A game in which the scenes lie in a script, and the next one comes on stage when a seat has
acted. -/
def Definition.theatre : Definition :=
  { Definition.minimal "theatre" with
    zones := [{ id := "script" }, { id := "stage" }]
    tokenTypes := [{ id := "scene" }]
    setup := [.create "scene" (.id "script")]
    actions := [{ id := "perform" }]
    order := .cardDriven
      { CardRules.ofSeats [⟨0⟩, ⟨1⟩] with
        maxActing := 1, drawZone := some "script", playedZone := some "stage" } }

/-- The rules of that game, under limits that keep a trace. -/
def Rules.theatre : Rules := ({ game := .ofDefinition .theatre } : Rules).traced

/-- Where two seats start that game. -/
def State.theatre : State := (Rules.theatre.game.start 2 0).toOption.getD default

/-- A performance brings the next scene on stage.  The trace notes nothing, so that it leaves the
scene in the script. -/
theorem Game.trail_of_reached_theatre :
    ∃ history res, Rules.theatre.game.Reached history .theatre ∧
      Rules.theatre.makeMove .theatre (.named "perform") = .ok res ∧ res.trace = some [] ∧
      State.theatre.store.zoneOf? "scene#0" = some "script" ∧
      res.state.store.zoneOf? "scene#0" = some "stage" ∧
      Rules.theatre.Uncovers .theatre (.named "perform") "scene#0" := by
  have hstart : Rules.theatre.game.start 2 0 = .ok .theatre := eq_ok_getD (by decide +kernel)
  have hreached := Game.Reached.start hstart
  obtain ⟨res, hres⟩ : ∃ res, Rules.theatre.makeMove .theatre (.named "perform") = .ok res :=
    exists_ok_of_isOk (by decide +kernel)
  have hafter : (Rules.theatre.makeMove .theatre (.named "perform")).toOption.map
      (fun res => (res.trace, res.state.store.zoneOf? "scene#0")) =
        some (some [], some "stage") := by
    decide +kernel
  rw [hres] at hafter
  obtain ⟨hnone, hstage⟩ := Prod.mk.inj (Option.some.inj hafter)
  have hscript : State.theatre.store.zoneOf? "scene#0" = some "script" := by decide +kernel
  obtain ⟨trace, htrace, hmove⟩ := Game.trail_of_reached hreached rfl hres
  obtain rfl : trace = [] := Option.some.inj (htrace.symm.trans hnone)
  obtain ⟨-, -, hiff, -⟩ := hmove (by decide +kernel)
  refine ⟨_, res, hreached, hres, hnone, hscript, hstage, ?_⟩
  by_contra huncovers
  have htrail := (hiff "scene#0").2 huncovers
  rw [hscript, hstage] at htrail
  revert htrail
  decide

end Tabletop
