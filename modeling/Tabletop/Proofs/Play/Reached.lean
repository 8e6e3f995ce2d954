import Tabletop.Proofs.Play.Leeway
import Tabletop.Proofs.Play.Opening
import Tabletop.Proofs.Play.Tokens

/-!
# The tokens of a game that is played

A game is played from a start by moves, under any limits.  What happens to its tokens on the way is
in the traces of the start and of the moves, which make up the history of the state that is reached.
As long as a history creates no more tokens than there are numbers, all tokens on the table differ.

Main statement: `Game.tokens_of_reached`.
-/

namespace Tabletop

/-! ## Traces of moves -/

/-- Nothing changes but that a trace is kept. -/
def Widening.traced : Widening where
  tracing _ := true

/-- Keeping a trace changes nothing but the limits. -/
theorem Widening.traced_limitsOnly : Widening.traced.LimitsOnly := ⟨rfl, rfl⟩

namespace Rules

/-- The rules under limits that keep a trace. -/
def traced (r : Rules) : Rules := { r with limits := { r.limits with tracing := true } }

/-- What a move changes: the trace of the move, if one is kept. -/
def changes (r : Rules) (s : State) (m : Move) : List TraceEntry :=
  ((r.traced.makeMove s m).toOption.bind (·.trace)).getD []

variable {r : Rules} {s : State} {m : Move} {res : MoveResult}

/-- Keeping a trace of a move adds nothing but the trace. -/
theorem makeMove_traced (h : r.makeMove s m = .ok res) :
    r.traced.makeMove s m = .ok { res with trace := some (r.changes s m) } := by
  have hdecision := r.atDecision_stays Widening.traced_limitsOnly
  obtain ⟨trace, htraced⟩ := r.makeMove_paired Widening.traced_limitsOnly hdecision h
  change r.traced.makeMove s m = _ at htraced
  obtain ⟨p, -, -, htrace⟩ := plays_of_makeMove htraced
  change trace = some p.journal.trace at htrace
  have hchanges : r.changes s m = p.journal.trace := by
    unfold changes
    rw [htraced, htrace]
    rfl
  rw [htraced, htrace, hchanges]

/-- The trace of a move accounts for the tokens. -/
theorem changes_accounted (h : r.makeMove s m = .ok res) (hplayed : s.HasPlayedZone r.definition) :
    Accounted (r.changes s m) s res.state := by
  obtain ⟨p, hplays, hstate, htrace⟩ := plays_of_makeMove (makeMove_traced h)
  obtain ⟨trace, haccounted, hjournal⟩ := hplays.accounted hplayed
  have hchanges : r.changes s m = trace := (Option.some.inj htrace).trans (hjournal rfl)
  have hstamped : Accounted [] p.state p.state.stamp := .same rfl rfl
  rw [hchanges, show res.state = p.state.stamp from hstate]
  simpa using haccounted.trans hstamped

end Rules

/-! ## Blank states -/

namespace Store

/-- Zones that are added hold no tokens of their own. -/
theorem kinds_foldl_addZone (zones : List Zone) (s : Store) :
    (zones.foldl (fun store z => store.addZone z.id) s).kinds = s.kinds := by
  induction zones generalizing s with
  | nil => rfl
  | cons z zones ih =>
    rw [List.foldl_cons, ih, kinds_addZone]

/-- A zone that was there or is among the added ones is there when all have been added. -/
theorem hasZone_foldl_addZone {zones : List Zone} {s : Store} {zone : ZoneId}
    (h : s.hasZone zone = true ∨ ∃ z ∈ zones, z.id = zone) :
    (zones.foldl (fun store z => store.addZone z.id) s).hasZone zone = true := by
  induction zones generalizing s with
  | nil =>
    rcases h with h | ⟨z, hz, -⟩
    · exact h
    · cases hz
  | cons z zones ih =>
    rw [List.foldl_cons]
    apply ih
    rcases h with h | ⟨z', hz', hid⟩
    · exact .inl (s.hasZone_addZone z.id h)
    · rcases List.mem_cons.1 hz' with rfl | hz'
      · rw [← hid]
        exact .inl (s.hasZone_addZone_self _)
      · exact .inr ⟨z', hz', hid⟩

end Store

/-- There is no token yet, but every declared zone. -/
structure State.Bare (s : State) (d : Definition) : Prop where
  kinds : s.store.kinds = 0
  nextToken : s.nextToken = 0
  zones : ∀ z ∈ d.zones, s.store.hasZone z.id = true

namespace Definition

variable {d : Definition}

/-- A blank state has every declared zone and no token. -/
theorem of_blank {count : Nat} {seed : UInt64} {s : State} (h : d.blank count seed = .ok s) :
    s.Bare d := by
  unfold blank at h
  split at h
  · cases h
  · obtain ⟨phase, -, h⟩ := bind_eq_ok h
    cases h
    refine ⟨Store.kinds_foldl_addZone d.zones .empty, rfl, fun z hz => ?_⟩
    exact Store.hasZone_foldl_addZone (.inr ⟨z, hz, rfl⟩)

/-- The zone to which cards are revealed is declared, if there is such a zone. -/
def DeclaresPlayedZone (d : Definition) : Prop :=
  ∀ rules zone, d.order = .cardDriven rules → rules.playedZone = some zone →
    ∃ z ∈ d.zones, z.id = zone

end Definition

namespace State

variable {s t : State} {d : Definition}

/-- Where every declared zone is there, so is the one to which cards are revealed. -/
theorem Bare.hasPlayedZone (h : s.Bare d) (hplayed : d.DeclaresPlayedZone) :
    s.HasPlayedZone d := by
  intro rules zone horder hzone
  obtain ⟨z, hz, rfl⟩ := hplayed rules zone horder hzone
  exact h.zones z hz

end State

/-! ## Histories -/

namespace Game

variable {g : Game}

/-- What the setup of a game changes. -/
def startChanges (g : Game) (count : Nat) (seed : UInt64) : List TraceEntry :=
  let changes : Result (List TraceEntry) := do
    let s ← g.definition.blank count seed
    let setting := ({ game := g } : Rules).traced.strict s.active .setup none
    let x ← runEffects setting "setup" ∅ g.definition.setup s
    return x.trace
  changes.toOption.getD []

/-- The states that are reached by moves from a start, each with all the changes since. -/
inductive Reached (g : Game) : List TraceEntry → State → Prop where
  | start {count : Nat} {seed : UInt64} {s : State} (h : g.start count seed = .ok s) :
      Reached g (g.startChanges count seed) s
  | move {history : List TraceEntry} {s : State} {r : Rules} {m : Move} {res : MoveResult}
      (hprior : Reached g history s) (hgame : r.game = g) (h : r.makeMove s m = .ok res) :
      Reached g (history ++ r.changes s m) res.state

/-- Every run has its history. -/
theorem Played.exists_reached {moves : List Move} {s : State} (h : g.Played moves s) :
    ∃ history, g.Reached history s := by
  induction h with
  | start h => exact ⟨_, .start h⟩
  | move _ hgame h ih =>
    obtain ⟨history, hreached⟩ := ih
    exact ⟨_, hreached.move hgame h⟩

/-- What the setup changes accounts for the tokens of the start. -/
theorem startChanges_accounted {count : Nat} {seed : UInt64} {s : State}
    (h : g.start count seed = .ok s) :
    ∃ blank, g.definition.blank count seed = .ok blank ∧
      Accounted (g.startChanges count seed) blank s := by
  obtain ⟨blank, hblank, h⟩ := bind_eq_ok h
  obtain ⟨t, hsetup, h⟩ := bind_eq_ok h
  obtain rfl : t.stamp = s := Except.ok.inj h
  have hstamped : Accounted [] t t.stamp := .same rfl rfl
  obtain ⟨x, hx, hsettled⟩ : ∃ x,
      runEffects (({ game := g } : Rules).strict blank.active .setup none) "setup" ∅
        g.definition.setup blank = .ok x ∧ Accounted [] x.state t := by
    unfold setUp at hsetup
    split at hsetup
    · rename_i hempty
      cases hsetup
      rw [List.isEmpty_iff.1 hempty]
      exact ⟨{ state := blank }, rfl, .refl blank⟩
    · obtain ⟨x, hx, hsetup⟩ := bind_eq_ok hsetup
      cases hsetup
      exact ⟨x, hx, State.syncActive_accounted _ _⟩
  -- The setup keeps no trace; run with one, it comes to the same.
  obtain ⟨x', hx', trace', rfl, -⟩ :=
    (runEffects_paired Widening.traced_limitsOnly _ _ _ _ _).of_ok hx
  obtain ⟨trace, haccounted, htrace⟩ := (reaches_of_runEffects hx').accounted
  have hchanges : g.startChanges count seed = trace := by
    have hrun : startChanges g count seed = trace' := by
      unfold startChanges
      rw [hblank]
      change (Except.toOption (runEffects _ _ _ _ _ >>= fun x => pure x.trace)).getD [] = _
      rw [show runEffects (({ game := g } : Rules).traced.strict blank.active .setup none) "setup" ∅
        g.definition.setup blank = _ from hx']
      rfl
    exact hrun.trans (htrace rfl)
  refine ⟨blank, hblank, ?_⟩
  rw [hchanges]
  simpa using haccounted.trans (hsettled.trans hstamped)

/-- The history of a state accounts for its tokens, from a blank state on. -/
theorem Reached.accounted (hplayed : g.definition.DeclaresPlayedZone)
    {history : List TraceEntry} {s : State} (h : g.Reached history s) :
    ∃ blank count seed, g.definition.blank count seed = .ok blank ∧
      Accounted history blank s := by
  induction h with
  | start h =>
    obtain ⟨blank, hblank, haccounted⟩ := startChanges_accounted h
    exact ⟨blank, _, _, hblank, haccounted⟩
  | move hprior hgame h ih =>
    obtain ⟨blank, count, seed, hblank, haccounted⟩ := ih
    refine ⟨blank, count, seed, hblank, haccounted.trans (Rules.changes_accounted h ?_)⟩
    rw [Rules.definition, hgame]
    exact ((Definition.of_blank hblank).hasPlayedZone hplayed).of_accounted haccounted

section

variable {history : List TraceEntry} {s : State}

/-- In every state that is reached the zone to which cards are revealed is there, if it is
declared. -/
theorem Reached.hasPlayedZone (hplayed : g.definition.DeclaresPlayedZone)
    (h : g.Reached history s) : s.HasPlayedZone g.definition := by
  obtain ⟨blank, count, seed, hblank, haccounted⟩ := h.accounted hplayed
  exact ((Definition.of_blank hblank).hasPlayedZone hplayed).of_accounted haccounted

/-- The tokens of a state are numbered, if its history leaves numbers. -/
theorem Reached.numbered (hplayed : g.definition.DeclaresPlayedZone) (h : g.Reached history s)
    (hroom : (createdIn history).length < UInt64.size) :
    Numbered s.store.kinds s.nextToken ∧ s.nextToken.toNat = (createdIn history).length := by
  obtain ⟨blank, count, seed, hblank, types, gone, haccounts⟩ := h.accounted hplayed
  have hstart := Definition.of_blank hblank
  have hleft : blank.nextToken.toNat + types.length < UInt64.size := by
    rw [hstart.nextToken, haccounts.length_types, UInt64.toNat_zero, Nat.zero_add]
    exact hroom
  have hall : Numbered (s.store.kinds + gone) s.nextToken := by
    rw [haccounts.kinds, haccounts.nextToken, hstart.kinds]
    exact Numbered.zero.add hleft
  refine ⟨hall.mono (Multiset.le_add_right _ _), ?_⟩
  rw [haccounts.nextToken, TokenId.toNat_add_ofNat hleft, hstart.nextToken, haccounts.length_types]
  exact Nat.zero_add _

end

/-- In a state that is reached all tokens differ, each being numbered below the next number.  A move
takes away the tokens that it destroys and adds those that it creates, under the next numbers, and
does nothing else to them. -/
theorem tokens_of_reached
    (hplayed : g.definition.DeclaresPlayedZone)
    {history : List TraceEntry} {s : State} (h : g.Reached history s)
    (hroom : (createdIn history).length < UInt64.size) :
    (s.store.allTokens.map (·.id)).Nodup ∧
      (∀ t ∈ s.store.allTokens, ∃ k < s.nextToken, t.id = .ofOrdinal t.type k) ∧
      s.store.allTokens.Pairwise (fun t t' => ∀ k k', t.id = .ofOrdinal t.type k →
        t'.id = .ofOrdinal t'.type k' → k ≠ k') ∧
      ∀ (r : Rules) (m : Move) (res : MoveResult), r.game = g → r.makeMove s m = .ok res →
        (createdIn (history ++ r.changes s m)).length < UInt64.size →
        r.traced.makeMove s m = .ok { res with trace := some (r.changes s m) } ∧
          ∃ (types : List String) (gone : List (TokenId × String)),
            res.state.store.kinds + gone =
              s.store.kinds + TokenId.series s.nextToken types ∧
            (TokenId.series s.nextToken types).map (·.1) = createdIn (r.changes s m) ∧
            gone.map (·.1) = destroyedIn (r.changes s m) ∧
            res.state.nextToken.toNat = s.nextToken.toNat + types.length := by
  obtain ⟨hnumbered, hnext⟩ := h.numbered hplayed hroom
  refine ⟨hnumbered.nodup_ids, hnumbered.exists_number, hnumbered.pairwise_number_ne, ?_⟩
  rintro r m res rfl hmove hleft
  refine ⟨Rules.makeMove_traced hmove, ?_⟩
  obtain ⟨-, hnext'⟩ := (h.move rfl hmove).numbered hplayed hleft
  obtain ⟨types, gone, haccounts⟩ := Rules.changes_accounted hmove (h.hasPlayedZone hplayed)
  refine ⟨types, gone, haccounts.kinds, haccounts.created, haccounts.destroyed, ?_⟩
  rw [hnext', hnext, haccounts.length_types, createdIn, List.filterMap_append, List.length_append]
  rfl

end Game

/-- The mint is reached, and so is what striking another coin leads to. -/
theorem Game.tokens_of_reached_mint :
    ∃ history res, Rules.mint.game.Reached history .mint ∧
      Rules.mint.makeMove .mint (.named "strike") = .ok res ∧
      (State.mint.store.allTokens.map (·.id)).Nodup ∧
      ∃ (types : List String) (gone : List (TokenId × String)),
        res.state.store.kinds + gone =
          State.mint.store.kinds + TokenId.series State.mint.nextToken types ∧
        (TokenId.series State.mint.nextToken types).map (·.1) = [.ofOrdinal "coin" 1] := by
  obtain ⟨res, hres⟩ : ∃ res, Rules.mint.makeMove .mint (.named "strike") = .ok res :=
    exists_ok_of_isOk (by decide +kernel)
  have hstart : Rules.mint.game.start 1 0 = .ok .mint := by
    obtain ⟨s, hs⟩ : ∃ s, Rules.mint.game.start 1 0 = .ok s := exists_ok_of_isOk (by decide +kernel)
    unfold State.mint
    rw [hs]
    rfl
  have hreached := Game.Reached.start hstart
  have hplayed : Rules.mint.game.definition.DeclaresPlayedZone := by
    intro rules zone horder
    cases horder
  obtain ⟨hnodup, -, -, hmoves⟩ := Game.tokens_of_reached hplayed hreached (by decide +kernel)
  obtain ⟨-, types, gone, hkinds, hcreated, -, -⟩ :=
    hmoves .mint (.named "strike") res rfl hres (by decide +kernel)
  refine ⟨_, res, hreached, hres, hnodup, types, gone, hkinds, hcreated.trans ?_⟩
  decide +kernel

end Tabletop
