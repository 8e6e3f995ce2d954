import Tabletop.Proofs.Play.Phases

/-!
# Interrupts on regular phases

Where all goes well, the first of the phases under way is a regular one and all others are
interrupts.  Effects only bring interrupts on top, and a transition that resumes a phase takes the
interrupt off that it was suspended for.

But leaving an interrupt can bring more interrupts, and then it is one of these that is taken off,
while the phase that is resumed stays suspended as well.  If it is an interrupt itself, the phases
under way look as before.  If it is the regular phase, it is under way twice: it is current although
something has been suspended.

Main statement: `Game.nested_of_played`, with a rout that follows an ambush.
-/

namespace Tabletop

namespace TurnStructure

variable {t : TurnStructure} {phase next : PhaseId}

/-- All phases have ids of their own, interrupts included. -/
def Distinct (t : TurnStructure) : Prop := ((t.phases ++ t.interrupts).map (·.id)).Nodup

/-- A phase has a place in the turn if it is one of its phases. -/
theorem index?_isSome_iff : (t.index? phase).isSome = true ↔ ∃ p ∈ t.phases, p.id = phase := by
  simp [index?]

/-- A phase may interrupt if it is one of the interrupts. -/
theorem isInterrupt_iff : t.isInterrupt phase = true ↔ ∃ p ∈ t.interrupts, p.id = phase := by
  simp [isInterrupt]

/-- No regular phase is an interrupt. -/
theorem Distinct.not_isInterrupt (h : t.Distinct) (hphase : (t.index? phase).isSome = true) :
    ¬ t.isInterrupt phase = true := by
  intro hinterrupt
  obtain ⟨p, hp, rfl⟩ := index?_isSome_iff.1 hphase
  obtain ⟨q, hq, hid⟩ := isInterrupt_iff.1 hinterrupt
  unfold Distinct at h
  rw [List.map_append] at h
  exact List.disjoint_of_nodup_append h (List.mem_map_of_mem hp) (hid ▸ List.mem_map_of_mem hq)

/-- What follows a phase is regular, and so is the phase. -/
theorem isSome_index?_of_after? (h : t.after? phase = some next) :
    (t.index? phase).isSome = true ∧ (t.index? next).isSome = true := by
  unfold after? at h
  obtain ⟨i, hi, h⟩ := Option.bind_eq_some_iff.1 h
  obtain ⟨p, hp, rfl⟩ := Option.map_eq_some_iff.1 h
  exact ⟨Option.isSome_of_eq_some hi, index?_isSome_iff.2 ⟨p, List.mem_of_getElem? hp, rfl⟩⟩

/-- A line of phases with a regular one first and interrupts after it. -/
def Nests (t : TurnStructure) : List PhaseId → Prop
  | [] => False
  | first :: rest => (t.index? first).isSome = true ∧ ∀ phase ∈ rest, t.isInterrupt phase = true

namespace Nests

variable {line pushed : List PhaseId}

/-- Interrupts may come on top of nested phases. -/
theorem append (h : t.Nests line) (hpushed : ∀ phase ∈ pushed, t.isInterrupt phase = true) :
    t.Nests (line ++ pushed) := by
  cases line with
  | nil => exact absurd h id
  | cons first rest =>
    exact ⟨h.1, fun phase hphase => (List.mem_append.1 hphase).elim (h.2 phase) (hpushed phase)⟩

/-- Without what came on top, nested phases are nested, and what came on top were interrupts. -/
theorem of_append (h : t.Nests (line ++ pushed)) (hline : line ≠ []) :
    t.Nests line ∧ ∀ phase ∈ pushed, t.isInterrupt phase = true := by
  cases line with
  | nil => exact absurd rfl hline
  | cons first rest =>
    exact ⟨⟨h.1, fun phase hphase => h.2 phase (List.mem_append_left _ hphase)⟩,
      fun phase hphase => h.2 phase (List.mem_append_right _ hphase)⟩

end Nests

end TurnStructure

/-- The first phase of a definition has a place in the turn. -/
theorem Definition.isSome_index?_first {d : Definition} {first : PhaseId}
    (h : d.firstPhase? = some first) : (d.turn.index? first).isSome = true := by
  obtain ⟨p, hp, rfl⟩ := Option.map_eq_some_iff.1 h
  exact TurnStructure.index?_isSome_iff.2 ⟨p, List.mem_of_mem_head? hp, rfl⟩

/-! ## Nested states -/

namespace State

variable {s s' : State} {t : TurnStructure}

/-- Interrupts are nested on a regular phase: the current phase is the regular one exactly if
nothing has been suspended; else it has been suspended first, and interrupts after it. -/
structure Nested (t : TurnStructure) (s : State) : Prop where
  declared : t.has s.phase = true
  current : (t.index? s.phase).isSome = true ↔ s.suspended = []
  bottom : ∀ first rest, s.suspended = first :: rest →
    (t.index? first).isSome = true ∧ ∀ phase ∈ rest, t.isInterrupt phase = true

/-- Where phases have ids of their own, interrupts are nested exactly if the line of phases is. -/
theorem nested_iff (hdistinct : t.Distinct) : s.Nested t ↔ t.Nests s.line := by
  unfold line
  constructor
  · rintro ⟨hdeclared, hcurrent, hbottom⟩
    cases hs : s.suspended with
    | nil => exact ⟨hcurrent.2 hs, nofun⟩
    | cons first rest =>
      obtain ⟨hfirst, hrest⟩ := hbottom first rest hs
      have hirregular : ¬ (t.index? s.phase).isSome = true := by simp [hcurrent, hs]
      have hinterrupt : t.isInterrupt s.phase = true := by
        simpa [TurnStructure.has, hirregular] using hdeclared
      refine ⟨hfirst, fun phase hphase => ?_⟩
      rcases List.mem_append.1 hphase with hphase | hphase
      · exact hrest phase hphase
      · exact List.mem_singleton.1 hphase ▸ hinterrupt
  · intro h
    cases hs : s.suspended with
    | nil =>
      rw [hs] at h
      refine ⟨by simp [TurnStructure.has, h.1], by simp [hs, h.1], fun first rest hline => ?_⟩
      rw [hs] at hline
      cases hline
    | cons first rest =>
      rw [hs] at h
      obtain ⟨hnests, hinterrupt⟩ := TurnStructure.Nests.of_append h (List.cons_ne_nil _ _)
      have hphase : t.isInterrupt s.phase = true := hinterrupt _ (List.mem_singleton_self _)
      refine ⟨by simp [TurnStructure.has, hphase], ?_, fun first' rest' hline => ?_⟩
      · simp only [hs, List.cons_ne_nil, iff_false]
        exact fun hregular => hdistinct.not_isInterrupt hregular hphase
      · rw [hs] at hline
        cases hline
        exact hnests

/-- At the start of a turn interrupts are nested on its first phase. -/
theorem NextTurn.nests {d : Definition} (h : s.NextTurn d s') : d.turn.Nests s'.line := by
  obtain ⟨first, pushed, hfirst, hline, hpushed⟩ := h.line
  rw [hline]
  exact ⟨Definition.isSome_index?_first hfirst, hpushed⟩

/-- No interrupt has come if the current phase is regular. -/
theorem Interrupted.eq_nil {pushed : List PhaseId} (h : Interrupted t pushed s s')
    (hdistinct : t.Distinct) (hregular : (t.index? s'.phase).isSome = true) : pushed = [] := by
  by_contra hpushed
  exact hdistinct.not_isInterrupt hregular (h.declared _ (h.phase_mem hpushed))

end State

/-! ## Resuming -/

/-- The phase that was suspended last is current, and it is no longer suspended. -/
structure State.Resumed (s s' : State) : Prop where
  suspended : s'.suspended = s.suspended.dropLast
  current : s.suspended.getLast? = some s'.phase

namespace Rules

variable {r : Rules} {p q : Progress} {s : State} {m : Move}

/-- What is suspended after a phase has been resumed.  If leaving the interrupt has brought more of
them, the phase is still suspended, and perhaps the interrupt that has been left and some of the new
ones are. -/
theorem suspended_of_resume (hsuspended : p.state.suspended ≠ []) (h : r.transition p = .ok q) :
    ∃ under phase, p.state.suspended = under ++ [phase] ∧ q.state.phase = phase ∧
      q.state.turn = p.state.turn ∧
      (¬ r.Disturbed p ∧ q.state.suspended = under ∨
        r.Disturbed p ∧ ∃ between, q.state.suspended = under ++ phase :: between ∧
          ∀ x ∈ between, x = p.state.phase ∨ r.definition.turn.isInterrupt x = true) := by
  cases shift_of_transition h with
  | pass hnone => exact absurd hnone hsuspended
  | passAll hnone => exact absurd hnone hsuspended
  | enter hnone => exact absurd hnone hsuspended
  | close hnone => exact absurd hnone hsuspended
  | @resume phase p' pushed hlast hleave hpushed hafter hphase hturn =>
    obtain ⟨under, hunder⟩ := List.getLast?_eq_some_iff.1 hlast
    refine ⟨under, phase, hunder, hphase, hturn, ?_⟩
    rw [hafter, disturbed_iff hleave hpushed, ← State.dropLast_line, hpushed.line, State.line,
      hunder]
    rcases List.eq_nil_or_concat pushed with rfl | ⟨pushed', last, rfl⟩
    · left
      simp
    · right
      -- What is taken off is the interrupt that came last, below it everything stays.
      refine ⟨by simp, (p.state.phase :: pushed').dropLast, ?_, fun x hx => ?_⟩
      · have hline : under ++ [phase] ++ [p.state.phase] ++ pushed'.concat last =
            under ++ phase :: (p.state.phase :: pushed') ++ [last] := by simp
        rw [hline, List.dropLast_concat, List.dropLast_append_of_ne_nil (List.cons_ne_nil _ _)]
        rfl
      · rcases List.mem_cons.1 (List.mem_of_mem_dropLast hx) with hx | hx
        · exact .inl hx
        · exact .inr (hpushed.declared x (by simp [hx]))

/-- A phase is resumed as it should be exactly if leaving the interrupt has brought no other. -/
theorem resumed_iff (hsuspended : p.state.suspended ≠ []) (h : r.transition p = .ok q) :
    p.state.Resumed q.state ↔ ¬ r.Disturbed p := by
  obtain ⟨under, phase, hunder, hphase, -, hafter⟩ := suspended_of_resume hsuspended h
  rcases hafter with ⟨hcalm, hafter⟩ | ⟨hdisturbed, between, hafter, -⟩
  · refine iff_of_true ⟨?_, ?_⟩ hcalm
    · rw [hafter, hunder, List.dropLast_concat]
    · rw [hphase, hunder, List.getLast?_concat]
  · refine iff_of_false (fun hresumed => ?_) (not_not.2 hdisturbed)
    have hlength := congrArg List.length hresumed.suspended
    rw [hafter, hunder, List.dropLast_concat] at hlength
    simp at hlength

/-- Interrupts are nested as before after a phase has been resumed, unless leaving the only
interrupt has brought others. -/
theorem nested_iff_of_resume (hdistinct : r.definition.turn.Distinct)
    (hp : p.state.Nested r.definition.turn) (hsuspended : p.state.suspended ≠ [])
    (h : r.transition p = .ok q) :
    q.state.Nested r.definition.turn ↔ ¬ r.Disturbed p ∨ 2 ≤ p.state.suspended.length := by
  rw [State.nested_iff hdistinct] at hp ⊢
  obtain ⟨under, phase, hunder, hphase, -, hafter⟩ := suspended_of_resume hsuspended h
  rw [State.line, hunder] at hp
  obtain ⟨hnests, hinterrupt⟩ := hp.of_append (by simp)
  rw [State.line, hphase, hunder]
  rcases hafter with ⟨hcalm, hafter⟩ | ⟨hdisturbed, between, hafter, hbetween⟩
  · rw [hafter]
    exact iff_of_true hnests (.inl hcalm)
  · have hbetween' : ∀ x ∈ between, r.definition.turn.isInterrupt x = true := by
      intro x hx
      rcases hbetween x hx with rfl | hx
      · exact hinterrupt _ (List.mem_singleton_self _)
      · exact hx
    rw [hafter]
    by_cases hlowest : under = []
    · subst hlowest
      -- The regular phase would have to be an interrupt as well.
      refine iff_of_false (fun htwice => ?_) (by simp [hdisturbed])
      exact hdistinct.not_isInterrupt hnests.1 (htwice.2 phase (by simp))
    · obtain ⟨hbottom, hphase⟩ := hnests.of_append hlowest
      have hlength : 1 ≤ under.length := List.length_pos_iff.2 hlowest
      have hmiddle : ∀ x ∈ phase :: between, r.definition.turn.isInterrupt x = true :=
        List.forall_mem_cons.2 ⟨hphase phase (List.mem_singleton_self _), hbetween'⟩
      exact iff_of_true ((hbottom.append hmiddle).append hphase) (.inr (by simp; omega))

/-- Where nothing has been suspended, transitions keep interrupts nested. -/
theorem nested_of_none (hdistinct : r.definition.turn.Distinct)
    (hp : p.state.Nested r.definition.turn) (hnone : p.state.suspended = [])
    (h : r.transition p = .ok q) : q.state.Nested r.definition.turn := by
  have hline := (State.nested_iff hdistinct).1 hp
  rw [State.nested_iff hdistinct]
  cases shift_of_transition h with
  | resume hlast =>
    rw [hnone] at hlast
    cases hlast
  | pass _ _ hsame =>
    rw [hsame.line]
    exact hline
  | passAll _ _ hnext => exact hnext.nests
  | close _ _ _ _ _ hnext => exact hnext.nests
  | @enter phase p' pushed more _ _ hleave hpushed hfollows hafter hmore hturn =>
    obtain ⟨hcurrent, hregular⟩ := TurnStructure.isSome_index?_of_after? hfollows
    have hempty : p'.state.suspended = [] := by
      obtain rfl := hpushed.eq_nil hdistinct hcurrent
      exact hpushed.same.1.trans hnone
    rw [hafter, hempty]
    exact ⟨hregular, hmore⟩

/-! ## Runs -/

/-- On the way of a move an interrupt on a regular phase is left, and leaving it brings others. -/
def Spoils (r : Rules) (s : State) (m : Move) : Prop :=
  ∃ p, r.ComesTo s m p ∧ p.state.Nested r.definition.turn ∧ p.state.suspended.length = 1 ∧
    r.Disturbed p

/-- Transitions keep interrupts nested until the only one is left and that brings others. -/
theorem Passes.nested (hdistinct : r.definition.turn.Distinct) {k : Nat} (h : r.Passes k p q)
    (hp : p.state.Nested r.definition.turn) :
    q.state.Nested r.definition.turn ∨ ∃ j p', r.Passes j p p' ∧
      p'.state.Nested r.definition.turn ∧ p'.state.suspended.length = 1 ∧ r.Disturbed p' := by
  induction h with
  | none => exact .inl hp
  | @next k p p' q hundecided hstep hrest ih =>
    -- Either the state after this transition is nested too, and the rest of the way decides, or
    -- this is the transition that was sought.
    have hnested : p'.state.Nested r.definition.turn ∨
        p.state.suspended.length = 1 ∧ r.Disturbed p := by
      by_cases hnone : p.state.suspended = []
      · exact .inl (nested_of_none hdistinct hp hnone hstep)
      · rw [nested_iff_of_resume hdistinct hp hnone hstep]
        have hpos := List.length_pos_iff.2 hnone
        by_cases hdisturbed : r.Disturbed p
        · rcases Nat.lt_or_ge 1 p.state.suspended.length with hmore | hone
          · exact .inl (.inr hmore)
          · exact .inr ⟨by omega, hdisturbed⟩
        · exact .inl (.inl hdisturbed)
    rcases hnested with hnested | ⟨hlength, hdisturbed⟩
    · rcases ih hnested with hq | ⟨j, p'', hpasses, hfound⟩
      · exact .inl hq
      · exact .inr ⟨j + 1, p'', .next hundecided hstep hpasses, hfound⟩
    · exact .inr ⟨0, p, .none p, hp, hlength, hdisturbed⟩

/-- A move that spoils nothing keeps interrupts nested. -/
theorem nested_of_makeMove (hdistinct : r.definition.turn.Distinct)
    (hs : s.Nested r.definition.turn) {res : MoveResult} (h : r.makeMove s m = .ok res) :
    res.state.Nested r.definition.turn ∨ r.Spoils s m := by
  obtain ⟨q, ⟨x, p, p', k, hx, hcarried, hout, hpasses⟩, -, hres⟩ := comesTo_of_makeMove h
  have hset : p'.state.Nested r.definition.turn := by
    rw [State.nested_iff hdistinct] at hs ⊢
    rcases hout.phases hx hcarried with ⟨pushed, hpushed⟩ | hnext
    · rw [hpushed.line]
      exact hs.append hpushed.declared
    · exact hnext.nests
  rcases hpasses.nested hdistinct hset with hq | ⟨j, p'', hpasses', hfound⟩
  · left
    rw [State.nested_iff hdistinct] at hq ⊢
    rw [hres, (State.SameMoment.stamp q.state).line]
    exact hq
  · exact .inr ⟨p'', ⟨x, p, p', j, hx, hcarried, hout, hpasses'⟩, hfound⟩

end Rules

namespace Game

variable {g : Game} {moves : List Move} {s : State}

/-- At the start interrupts are nested: the setup brings interrupts at most. -/
theorem nested_of_start (hdistinct : g.definition.turn.Distinct) {count : Nat} {seed : UInt64}
    (h : g.start count seed = .ok s) : s.Nested g.definition.turn := by
  obtain ⟨blank, hblank, hstart⟩ := start_eq_ok h
  have hfirst : g.definition.turn.Nests blank.line := by
    unfold Definition.blank at hblank
    split at hblank
    · cases hblank
    · obtain ⟨phase, hphase, hblank⟩ := bind_eq_ok hblank
      cases hblank
      exact ⟨Definition.isSome_index?_first (orFault_eq_ok hphase), nofun⟩
  rw [State.nested_iff hdistinct]
  rcases hstart with ⟨rfl, -⟩ | ⟨x, hreaches, rfl⟩
  · exact hfirst
  · obtain ⟨pushed, hpushed⟩ := hreaches.interrupted
    rw [(State.SameMoment.stamp _).line, (State.SameMoment.syncActive _ _).line, hpushed.line]
    exact hfirst.append hpushed.declared

/-- Suppose that all phases have ids of their own.  In a state that is reached by moves, interrupts
are nested on a regular phase, unless one of the moves has spoiled that: an interrupt that was the
only one has been left, which has brought others.  A transition out of a nested state resumes a
phase as it should exactly if leaving the interrupt brings no other; if it does, interrupts stay
nested exactly if the phase that is resumed is not the regular one. -/
theorem nested_of_played (hdistinct : g.definition.turn.Distinct) (h : g.Played moves s) :
    (s.Nested g.definition.turn ∨ ∃ (before : List Move) (m : Move) (after : List Move) (s' : State)
        (r : Rules), moves = before ++ m :: after ∧ g.Played before s' ∧ r.game = g ∧
          s'.Nested g.definition.turn ∧ r.Spoils s' m) ∧
      ∀ (r : Rules) (p q : Progress), r.game = g → p.state.Nested g.definition.turn →
        r.transition p = .ok q →
          (p.state.suspended = [] → q.state.Nested g.definition.turn) ∧
            (p.state.suspended ≠ [] → (p.state.Resumed q.state ↔ ¬ r.Disturbed p) ∧
              (q.state.Nested g.definition.turn ↔
                ¬ r.Disturbed p ∨ 2 ≤ p.state.suspended.length)) := by
  constructor
  · induction h with
    | start h => exact .inl (nested_of_start hdistinct h)
    | @move moves s r m res hprior hgame h ih =>
      rcases ih with hs | ⟨before, m', after, s', r', rfl, hspoiled⟩
      · have hmade : res.state.Nested r.definition.turn ∨ r.Spoils s m :=
          Rules.nested_of_makeMove (by rw [Rules.definition, hgame]; exact hdistinct)
            (by rw [Rules.definition, hgame]; exact hs) h
        rw [Rules.definition, hgame] at hmade
        exact hmade.imp id (fun hspoils => ⟨moves, m, [], s, r, rfl, hprior, hgame, hs, hspoils⟩)
      · exact .inr ⟨before, m', after ++ [m], s', r', by simp, hspoiled⟩
  · rintro r p q rfl hp hstep
    exact ⟨fun hnone => Rules.nested_of_none hdistinct hp hnone hstep, fun hsuspended =>
      ⟨Rules.resumed_iff hsuspended hstep,
        Rules.nested_iff_of_resume hdistinct hp hsuspended hstep⟩⟩

end Game

/-! ## A rout -/

/-- A game in which a march is ambushed, and the first ambush ends in a rout. -/
def Definition.rout : Definition :=
  { Definition.minimal "rout" with
    turn := { phases := [⟨"main"⟩], interrupts := [⟨"ambush"⟩, ⟨"rout"⟩] }
    globalVars := [.ofInt "sprung" 0 0 1]
    actions := [
      { id := "march", phases := ["main"], effects := [.pushInterruptPhase "ambush"] }]
    triggers := [{
      id := "spring", pattern := .phaseExit (some "ambush")
      when := some (.eq (.globalVar "sprung") (.int 0))
      effects := [.setGlobal "sprung" (.int 1), .pushInterruptPhase "rout"] }] }

/-- The rules of that game, under the usual limits. -/
def Rules.rout : Rules := { game := .ofDefinition .rout }

/-- Where two seats start that game. -/
def State.rout : State := (Rules.rout.game.start 2 0).toOption.getD default

/-- After a march the main phase is current and suspended at once, for it was resumed when the
ambush was left and brought the rout. -/
theorem Game.nested_of_played_rout :
    ∃ res, Rules.rout.makeMove .rout (.named "march") = .ok res ∧
      Rules.rout.game.Played [.named "march"] res.state ∧
      res.state.phase = "main" ∧ res.state.suspended = ["main"] ∧
      ¬ res.state.Nested Rules.rout.game.definition.turn ∧
      ∃ (s : State) (r : Rules), r.game = Rules.rout.game ∧
        s.Nested Rules.rout.game.definition.turn ∧ r.Spoils s (.named "march") := by
  obtain ⟨res, hres⟩ : ∃ res, Rules.rout.makeMove .rout (.named "march") = .ok res :=
    exists_ok_of_isOk (by decide +kernel)
  have hstart : Rules.rout.game.start 2 0 = .ok .rout := eq_ok_getD (by decide +kernel)
  have hplayed : Rules.rout.game.Played [.named "march"] res.state := .move (.start hstart) rfl hres
  have hphases : (Rules.rout.makeMove .rout (.named "march")).toOption.map
      (fun res => (res.state.phase, res.state.suspended)) = some ("main", ["main"]) := by
    decide +kernel
  rw [hres] at hphases
  obtain ⟨hphase, hsuspended⟩ := Prod.mk.inj (Option.some.inj hphases)
  have hspoiled : ¬ res.state.Nested Rules.rout.game.definition.turn := by
    intro hnested
    have hregular : (Rules.rout.game.definition.turn.index? res.state.phase).isSome = true := by
      rw [hphase]
      decide +kernel
    rw [hnested.current, hsuspended] at hregular
    cases hregular
  have hdistinct : Rules.rout.game.definition.turn.Distinct := by
    unfold TurnStructure.Distinct
    decide +kernel
  obtain ⟨hnested | ⟨before, m, after, s, r, hmoves, -, hgame, hs, hspoils⟩, -⟩ :=
    Game.nested_of_played hdistinct hplayed
  · exact absurd hnested hspoiled
  · have hm : m = .named "march" := by
      cases before with
      | nil => exact (List.cons.inj hmoves).1.symm
      | cons m' before => simp at hmoves
    rw [hm] at hspoils
    exact ⟨res, hres, hplayed, hphase, hsuspended, hspoiled, s, r, hgame, hs, hspoils⟩

end Tabletop
