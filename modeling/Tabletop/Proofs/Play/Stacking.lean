import Tabletop.Proofs.Board.Contents
import Tabletop.Proofs.Play.Reached
import Tabletop.Proofs.Play.Table

/-!
# Stacking limits along a game

A stacking limit says how many tokens a zone may hold.  Every effect that puts tokens into a zone
checks the limits of that zone afterwards, and the others leave the numbers as they are or let them
fall.  But where a card ends, the next one is revealed without a check.  So a limit on the zone to
which cards are revealed can be exceeded, and no other limit can.

What goes wrong goes wrong there first: a card ends in a state that keeps all limits, but the first
card of the draw zone is one too many.

Main statement: `Game.stacked_of_played`, with a market whose row of cards overflows.
-/

namespace Tabletop

open Relation (ReflTransGen)

/-! ## Limits -/

/-- The number of tokens that a limit counts depends on their types only. -/
theorem StackingLimit.count_eq (limit : StackingLimit) (tokens : List Token) :
    limit.count tokens = (tokens.map (·.type)).countP limit.counts := by
  rw [List.countP_map]
  rfl

/-- Fewer tokens of each type are not more for a limit. -/
theorem StackingLimit.count_le (limit : StackingLimit) {tokens tokens' : List Token}
    (h : (tokens'.map (·.type)).Subperm (tokens.map (·.type))) :
    limit.count tokens' ≤ limit.count tokens := by
  rw [count_eq, count_eq]
  exact h.countP_le _

namespace Store

variable {s s' : Store} {d : Definition} {zone other : ZoneId}

/-- A zone holds no more than each of its limits allows. -/
def Keeps (s : Store) (d : Definition) (zone : ZoneId) : Prop :=
  ∀ limit ∈ d.stackingLimits, limit.governs d zone = true →
    limit.count (s.tokens zone) ≤ limit.max.toNat

/-- No zone holds more than its limits allow. -/
def Stacked (s : Store) (d : Definition) : Prop := ∀ zone, s.Keeps d zone

/-- The check of a zone says whether it does. -/
theorem checkStacking_eq_ok_iff : checkStacking d s zone = .ok () ↔ s.Keeps d zone := by
  unfold checkStacking Keeps Store.tokens
  cases htokens : s.tokens? zone with
  | none =>
    refine ⟨fun _ limit _ _ => ?_, fun _ => rfl⟩
    exact Nat.zero_le _
  | some tokens =>
    dsimp only [Option.getD_some]
    cases hfound : d.stackingLimits.find? (fun l =>
        l.governs d zone && decide (l.max.toNat < l.count tokens)) with
    | none =>
      refine ⟨fun _ limit hlimit hgoverns => ?_, fun _ => rfl⟩
      have hnone := List.find?_eq_none.1 hfound limit hlimit
      simpa [hgoverns] using hnone
    | some limit =>
      have hexceeds := List.find?_some hfound
      simp only [Bool.and_eq_true, decide_eq_true_eq] at hexceeds
      refine ⟨fun h => (by cases h), fun h => ?_⟩
      exact absurd (h limit (List.mem_of_find?_eq_some hfound) hexceeds.1)
        (Nat.not_le.2 hexceeds.2)

/-- A zone holds no more of any type than before. -/
def Eases (s s' : Store) (zone : ZoneId) : Prop :=
  ((s'.tokens zone).map (·.type)).Subperm ((s.tokens zone).map (·.type))

/-- A zone that holds no more than before keeps its limits. -/
theorem Eases.keeps (h : s.Eases s' zone) (hs : s.Keeps d zone) : s'.Keeps d zone :=
  fun limit hlimit hgoverns => Nat.le_trans (limit.count_le h) (hs limit hlimit hgoverns)

/-- A zone that holds the same tokens holds no more. -/
theorem Eases.of_eq (h : s'.tokens zone = s.tokens zone) : s.Eases s' zone := by
  unfold Eases
  rw [h]

/-- A zone that holds some of its tokens holds no more. -/
theorem Eases.of_subperm (h : (s'.tokens zone).Subperm (s.tokens zone)) : s.Eases s' zone := by
  obtain ⟨tokens, hperm, hsublist⟩ := h
  exact ⟨tokens.map _, hperm.map _, hsublist.map _⟩

/-- A zone that holds no more twice over holds no more. -/
theorem Eases.trans {s'' : Store} (h : s.Eases s' zone) (h' : s'.Eases s'' zone) :
    s.Eases s'' zone := List.Subperm.trans h' h

/-- A zone whose tokens are replaced holds the new ones. -/
theorem tokens_replace_self (s : Store) (zone : ZoneId) (tokens : List Token) :
    (s.replace zone tokens).tokens zone = tokens := by
  simp [Store.tokens]

/-- Replacing the tokens of one zone leaves those of the others. -/
theorem tokens_replace_ne (s : Store) (tokens : List Token) (h : other ≠ zone) :
    (s.replace zone tokens).tokens other = s.tokens other := by
  rw [Store.tokens, tokens?_replace_ne s tokens h, Store.tokens]

/-- Where fewer tokens are put in the place of those of a zone, every zone is eased. -/
theorem eases_replace {tokens : List Token}
    (h : (tokens.map (·.type)).Subperm ((s.tokens zone).map (·.type))) (other : ZoneId) :
    s.Eases (s.replace zone tokens) other := by
  by_cases hz : other = zone
  · subst hz
    unfold Eases
    rw [tokens_replace_self]
    exact h
  · exact .of_eq (tokens_replace_ne s tokens hz)

/-- A zone holds no more when a token is taken out, of it or of another one. -/
theorem eases_remove? {index : Nat} {t : Token} (h : s.remove? zone index = some (t, s'))
    (other : ZoneId) : s.Eases s' other := by
  obtain ⟨tokens, htokens, -, rfl⟩ := remove?_eq_some h
  refine eases_replace ?_ other
  rw [tokens_of_tokens? htokens]
  exact ((tokens.eraseIdx_sublist index).map _).subperm

/-- A token that is put into one zone leaves those of the others. -/
theorem tokens_insert?_ne {t : Token} {place : Placement} (h : s.insert? zone t place = some s')
    (hne : other ≠ zone) : s'.tokens other = s.tokens other := by
  obtain ⟨tokens, -, rfl⟩ := Option.map_eq_some_iff.1 h
  exact tokens_replace_ne s _ hne

/-- A token that is taken out of a zone and put back leaves the numbers as they are. -/
theorem eases_putBack {s'' : Store} {t : Token} {index : Nat} {place : Placement}
    (htaken : s.remove? zone index = some (t, s')) (hput : s'.insert? zone t place = some s'')
    (other : ZoneId) : s.Eases s'' other := by
  by_cases hz : other = zone
  · subst hz
    obtain ⟨tokens, htokens, htoken, rfl⟩ := remove?_eq_some htaken
    obtain ⟨tokens', htokens', rfl⟩ := Option.map_eq_some_iff.1 hput
    rw [tokens?_replace_self] at htokens'
    cases htokens'
    refine .of_subperm ?_
    rw [tokens_replace_self, tokens_of_tokens? htokens]
    exact ((place.put_perm t _).trans (eraseIdx_perm htoken).symm).subperm
  · exact (eases_remove? htaken other).trans (.of_eq (tokens_insert?_ne hput hz))

/-- A token that is changed but for its type counts as before. -/
theorem eases_modify (s : Store) (id : TokenId) {f : Token → Token} (hf : ∀ t, (f t).kind = t.kind)
    (other : ZoneId) : s.Eases (s.modify id f) other := by
  unfold modify
  split
  · rename_i zone tokens hfound
    have htokens : s.tokens? zone = some tokens :=
      Dict.mem_entries_iff.1 (List.mem_of_find?_eq_some hfound)
    refine eases_replace ?_ other
    have hkinds : (modifyFirst id f tokens).map Token.kind = tokens.map Token.kind :=
      map_kind_modifyFirst hf tokens
    have htypes := congrArg (List.map Prod.snd) hkinds
    rw [List.map_map, List.map_map] at htypes
    rw [tokens_of_tokens? htokens]
    exact (List.Perm.of_eq htypes).subperm
  · exact .of_eq rfl

end Store

/-! ## Effects -/

/-- An effect that puts tokens into a zone has checked it, and every other zone is eased. -/
theorem Alters.stacking {setting : Setting} {x y : Session} (h : Alters setting x y)
    (zone : ZoneId) :
    x.state.store.Eases y.state.store zone ∨
      y.state.store.Keeps setting.game.definition zone := by
  cases h with
  | @storeVar here x target name slot hslot n =>
    left
    unfold Site.storeVar
    split
    · exact .of_eq rfl
    · rw [Site.note_state]
      cases slot.scope <;> exact .of_eq rfl
  | setMarker =>
    rw [Site.note_state]
    exact .inl (.of_eq rfl)
  | moveWithin _ htaken _ hput => exact .inl (Store.eases_putBack htaken hput zone)
  | @moveAcross here x id source target index token place placement taken put random _ _ htaken
    _ hput
      hstacking =>
    unfold Site.arrive
    rw [Site.note_state]
    by_cases hz : zone = target
    · subst hz
      exact .inr (Store.checkStacking_eq_ok_iff.1 hstacking)
    · exact .inl ((Store.eases_remove? htaken zone).trans
        (.of_eq (Store.tokens_insert?_ne hput hz)))
  | @moveBlock here x source target block rest old tokens _ _ hparts _ _ _ hstacking =>
    rw [Site.arriveAll_state]
    by_cases hz : zone = target
    · subst hz
      exact .inr (Store.checkStacking_eq_ok_iff.1 hstacking)
    · left
      have hrest : (rest.map (·.type)).Subperm ((x.state.store.tokens source).map (·.type)) := by
        refine ((List.sublist_append_right block rest).map _).subperm.trans ?_
        exact (hparts.symm.map _).subperm
      exact (Store.eases_replace hrest zone).trans (.of_eq (Store.tokens_replace_ne _ _ hz))
  | @shuffle here x source tokens random _ hshuffled =>
    rw [Site.note_state]
    have hperm := RandomState.perm_of_shuffle hshuffled
    exact .inl (Store.eases_replace (hperm.map _).subperm zone)
  | @createToken here x name type target given props store _ _ hput hstacking =>
    rw [Site.note_state]
    by_cases hz : zone = target
    · subst hz
      exact .inr (Store.checkStacking_eq_ok_iff.1 hstacking)
    · exact .inl (.of_eq (Store.tokens_insert?_ne hput hz))
  | destroyToken _ _ htaken =>
    rw [Site.note_state]
    exact .inl (Store.eases_remove? htaken zone)
  | setTokenProp =>
    rw [Site.note_state]
    left
    apply Store.eases_modify
    intro t
    rfl
  | roll => exact .inl (.of_eq rfl)
  | grant => exact .inl (.of_eq rfl)
  | override => exact .inl (.of_eq rfl)
  | interrupt => exact .inl (.of_eq rfl)

namespace Game

variable {g : Game} {s t : State} {zone : ZoneId}

/-- Anything that touches the state keeps the limits of a zone, as no token comes in unchecked. -/
theorem Touches.keeps (h : g.Touches s t) (hs : s.store.Keeps g.definition zone) :
    t.store.Keeps g.definition zone := by
  cases h with
  | alter hgame h =>
    subst hgame
    rcases h.stacking zone with heases | hkeeps
    · exact heases.keeps hs
    · exact hkeeps
  | course h =>
    rw [h.store]
    exact hs

/-- A zone that keeps its limits keeps them as long as no card ends. -/
theorem Touched.keeps (h : g.Touched s t) (hs : s.store.Keeps g.definition zone) :
    t.store.Keeps g.definition zone := by
  induction h with
  | refl => exact hs
  | tail _ hstep ih => exact hstep.keeps ih

/-- Anything that touches the state keeps all limits. -/
theorem Touched.stacked (h : g.Touched s t) (hs : s.store.Stacked g.definition) :
    t.store.Stacked g.definition := fun zone => h.keeps (hs zone)

end Game

/-! ## Reveals -/

/-- Where a card ends, the first token of one zone is revealed to another. -/
def Definition.Reveals (d : Definition) (source target : ZoneId) : Prop :=
  ∃ rules, d.order = .cardDriven rules ∧ rules.drawZone = some source ∧
    rules.playedZone = some target

namespace State

variable {s : State} {d : Definition} {source target zone : ZoneId} {token : Token}

/-- Revealing moves a token from one zone to another. -/
structure Brings (s : State) (source target : ZoneId) (token : Token) : Prop where
  ne : source ≠ target
  first : (s.store.tokens source).head? = some token
  zone : s.store.hasZone target = true

/-- There is nothing to reveal from a zone without tokens. -/
theorem reveal_of_nil (h : s.store.tokens source = []) (target : ZoneId) :
    s.reveal source target = s := by
  unfold reveal Store.takeFront
  unfold Store.tokens at h
  cases hsource : s.store.tokens? source with
  | none => rfl
  | some tokens =>
    rw [hsource] at h
    obtain rfl : tokens = [] := h
    rfl

/-- The first token is taken out and put in front of the other zone, or just taken out if there is
none. -/
theorem store_reveal_of_cons {rest : List Token}
    (h : s.store.tokens? source = some (token :: rest)) :
    (s.reveal source target).store =
      ((s.store.replace source rest).insert? target token .front).getD
        (s.store.replace source rest) := by
  unfold reveal Store.takeFront
  rw [h]
  rfl

/-- The zone to which a token is revealed holds it besides the others. -/
theorem tokens_reveal (h : s.Brings source target token) :
    (s.reveal source target).store.tokens target = token :: s.store.tokens target := by
  obtain ⟨rest, hsource⟩ := List.head?_eq_some_iff.1 h.first
  have hsome : s.store.tokens? source = some (token :: rest) := by
    rw [← hsource]
    exact Store.tokens?_of_ne_nil (by simp [hsource])
  have htarget : (s.store.replace source rest).tokens? target = some (s.store.tokens target) := by
    rw [Store.tokens?_replace_ne _ _ h.ne.symm]
    exact Store.tokens?_of_hasZone h.zone
  rw [store_reveal_of_cons hsome, Store.insert?, htarget]
  exact Store.tokens_replace_self _ _ _

/-- All other zones are eased, and so is every zone if no token moves. -/
theorem eases_reveal (h : zone ≠ target ∨ ∀ token, ¬ s.Brings source target token) :
    s.store.Eases (s.reveal source target).store zone := by
  cases hsource : s.store.tokens? source with
  | none =>
    unfold reveal Store.takeFront
    rw [hsource]
    exact .of_eq rfl
  | some tokens =>
    cases tokens with
    | nil =>
      unfold reveal Store.takeFront
      rw [hsource]
      exact .of_eq rfl
    | cons token rest =>
      rw [store_reveal_of_cons hsource]
      have htaken : s.store.Eases (s.store.replace source rest) zone := by
        refine Store.eases_replace ?_ zone
        rw [Store.tokens_of_tokens? hsource]
        exact (List.sublist_cons_self _ _).subperm
      cases hput : (s.store.replace source rest).insert? target token .front with
      | none => exact htaken
      | some store =>
        by_cases hz : zone = target
        · subst hz
          have hremoved : s.store.remove? source 0 = some (token, s.store.replace source rest) := by
            simp [Store.remove?, hsource]
          by_cases hsame : source = zone
          · subst hsame
            exact Store.eases_putBack hremoved hput source
          · have hzone : s.store.hasZone zone = true := by
              obtain ⟨tokens, htokens, -⟩ := Option.map_eq_some_iff.1 hput
              rw [Store.tokens?_replace_ne _ _ (Ne.symm hsame)] at htokens
              exact Store.hasZone_of_tokens? htokens
            have hfirst : (s.store.tokens source).head? = some token := by
              rw [Store.tokens_of_tokens? hsource]
              rfl
            exact absurd ⟨hsame, hfirst, hzone⟩ (h.resolve_left (not_not_intro rfl) token)
        · exact htaken.trans (.of_eq (Store.tokens_insert?_ne hput hz))

/-- The next card is one too many for a limit of the zone to which it is revealed. -/
def Overfills (s : State) (d : Definition) : Prop :=
  ∃ source target token, d.Reveals source target ∧ s.Brings source target token ∧
    ∃ limit ∈ d.stackingLimits, limit.governs d target = true ∧ limit.counts token.type = true ∧
      limit.max.toNat ≤ limit.count (s.store.tokens target)

/-- The end of a card reveals the next one, or leaves the tokens alone. -/
theorem store_endCard (s : State) (d : Definition) :
    (s.endCard d).store = s.store ∨
      ∃ source target, d.Reveals source target ∧
        (s.endCard d).store = (s.reveal source target).store := by
  unfold endCard
  split
  · rename_i rules card horder hcard
    dsimp only
    split
    · rename_i source target hsource htarget
      have hsame := (SameTable.order s (.cardDriven card.nextCard)).reveal source target
      exact .inr ⟨source, target, ⟨rules, horder, hsource, htarget⟩, hsame.store⟩
    · exact .inl rfl
  · exact .inl rfl

/-- Where a card lies, the next one is revealed. -/
theorem store_endCard_of_reveals (hcard : s.order.card?.isSome = true)
    (h : d.Reveals source target) :
    (s.endCard d).store = (s.reveal source target).store := by
  obtain ⟨rules, horder, hsource, htarget⟩ := h
  obtain ⟨card, hcard⟩ := Option.isSome_iff_exists.1 hcard
  unfold endCard
  rw [horder, Tracker.eq_of_card? hcard]
  simp only [hsource, htarget]
  exact ((SameTable.order s (.cardDriven card.nextCard)).reveal source target).store

/-- The end of a card eases every zone to which no card is revealed from another. -/
theorem eases_endCard (h : ∀ source, d.Reveals source zone → source = zone) :
    s.store.Eases (s.endCard d).store zone := by
  rcases s.store_endCard d with hsame | ⟨source, target, hreveals, hstore⟩
  · exact .of_eq (congrArg (Store.tokens · zone) hsame)
  · rw [hstore]
    apply eases_reveal
    by_cases hz : zone = target
    · subst hz
      exact .inr (fun token hbrings => hbrings.ne (h source hreveals))
    · exact .inl hz

/-- A card too many in a zone breaks a limit of it. -/
theorem not_stacked_endCard (hcard : s.order.card?.isSome = true) (h : s.Overfills d) :
    ¬ (s.endCard d).store.Stacked d := by
  obtain ⟨source, target, token, hreveals, hbrings, limit, hlimit, hgoverns, hcounts, hfull⟩ := h
  intro hkept
  have hle := hkept target limit hlimit hgoverns
  rw [store_endCard_of_reveals hcard hreveals, tokens_reveal hbrings] at hle
  have hone : limit.count (token :: s.store.tokens target) =
      limit.count (s.store.tokens target) + 1 := List.countP_cons_of_pos hcounts
  omega

/-- Where all limits are kept, the end of a card keeps them unless the next card is one too many. -/
theorem stacked_endCard (hs : s.store.Stacked d) (hfits : ¬ s.Overfills d) :
    (s.endCard d).store.Stacked d := by
  intro zone limit hlimit hgoverns
  have hold := hs zone limit hlimit hgoverns
  rcases s.store_endCard d with hsame | ⟨source, target, hreveals, hstore⟩
  · rw [hsame]
    exact hold
  rw [hstore]
  by_cases hbrings : zone = target ∧ ∃ token, s.Brings source target token
  · obtain ⟨rfl, token, hbrings⟩ := hbrings
    rw [tokens_reveal hbrings]
    by_cases hcounts : limit.counts token.type = true
    · have hroom : limit.count (s.store.tokens zone) < limit.max.toNat := by
        by_contra hfull
        exact hfits ⟨source, zone, token, hreveals, hbrings, limit, hlimit, hgoverns, hcounts,
          Nat.le_of_not_lt hfull⟩
      have hone : limit.count (token :: s.store.tokens zone) =
          limit.count (s.store.tokens zone) + 1 := List.countP_cons_of_pos hcounts
      omega
    · have hsame : limit.count (token :: s.store.tokens zone) =
          limit.count (s.store.tokens zone) := List.countP_cons_of_neg hcounts
      omega
  · have heases : s.store.Eases (s.reveal source target).store zone := by
      apply eases_reveal
      by_cases hz : zone = target
      · exact .inr (fun token h => hbrings ⟨hz, token, h⟩)
      · exact .inl hz
    exact heases.keeps (hs zone) limit hlimit hgoverns

/-- Where a move ends a card, there is one. -/
theorem isSome_card?_of_afterMove {m : Move} (h : (s.afterMove d m).1.cardEnded = true) :
    s.order.card?.isSome = true := by
  unfold afterMove at h
  split at h
  · cases h
  · rename_i hcard
    rw [hcard]
    rfl
  · cases h

/-- Where passing over a seat ends a card, there is one. -/
theorem isSome_card?_of_skipStuckSeat (h : (s.skipStuckSeat d).1.cardEnded = true) :
    s.order.card?.isSome = true := by
  unfold skipStuckSeat at h
  split at h
  · cases h
  · cases horder : s.order with
    | cardDriven card => rfl
    | _ =>
      rw [horder] at h
      cases h

end State

/-! ## Moves -/

namespace Rules

variable {r : Rules} {p q : Progress} {s u : State} {m : Move}

/-- A card ends in a state that a move comes by. -/
inductive EndsCardIn (r : Rules) (s : State) (m : Move) : State → Prop where
  /-- The seat has moved, and that ends the card. -/
  | move {x : Resolution} {p : Progress} (hx : r.resolve s m = .ok x)
      (hcarried : r.carryOut m s.active x = .ok p)
      (hended : (p.state.afterMove r.definition m).1.cardEnded = true) : EndsCardIn r s m p.state
  /-- The active seat cannot move, and a transition ends the card. -/
  | pass {p : Progress} (hcomes : r.ComesTo s m p) (hundecided : r.atDecision p.state = .ok false)
      (hskips : r.SkipsCard p.state) : EndsCardIn r s m p.state

/-- A card ends on the way of a move, and then the next card is the first that is too many. -/
def Overfills (r : Rules) (s : State) (m : Move) : Prop :=
  ∃ u, r.EndsCardIn s m u ∧ u.store.Stacked r.definition ∧ u.Overfills r.definition

/-- A card ends only where there are cards. -/
theorem EndsCardIn.isSome_card? (h : r.EndsCardIn s m u) : u.order.card?.isSome = true := by
  cases h with
  | move _ _ hended => exact State.isSome_card?_of_afterMove hended
  | pass _ _ hskips => exact State.isSome_card?_of_skipStuckSeat hskips.ended

/-- Setting out keeps all limits, or the next card is one too many. -/
theorem stacked_of_setsOut {x : Resolution} (hx : r.resolve s m = .ok x)
    (hcarried : r.carryOut m s.active x = .ok p) (h : r.SetsOut m p q)
    (hp : p.state.store.Stacked r.definition) :
    q.state.store.Stacked r.definition ∨ r.Overfills s m := by
  rcases h.touched with ⟨hended, htouched⟩ | ⟨-, htouched⟩
  · by_cases hfull : p.state.Overfills r.definition
    · exact .inr ⟨p.state, .move hx hcarried hended, hp, hfull⟩
    · exact .inl (htouched.stacked (State.stacked_endCard hp hfull))
  · exact .inl (htouched.stacked hp)

/-- A transition keeps all limits, or the next card is one too many. -/
theorem stacked_of_transition (hcomes : r.ComesTo s m p)
    (hundecided : r.atDecision p.state = .ok false) (h : r.transition p = .ok q)
    (hp : p.state.store.Stacked r.definition) :
    q.state.store.Stacked r.definition ∨ r.Overfills s m := by
  rcases touched_of_transition h with ⟨hskips, htouched⟩ | htouched
  · by_cases hfull : p.state.Overfills r.definition
    · exact .inr ⟨p.state, .pass hcomes hundecided hskips, hp, hfull⟩
    · exact .inl (htouched.stacked (State.stacked_endCard hp hfull))
  · exact .inl (htouched.stacked hp)

/-- All the way to the next decision the limits are kept, until the next card is one too many. -/
theorem Passes.stacked {k : Nat} (h : r.Passes k p q) (hcomes : r.ComesTo s m p)
    (hp : p.state.store.Stacked r.definition) :
    q.state.store.Stacked r.definition ∨ r.Overfills s m := by
  induction h with
  | none => exact .inl hp
  | next hundecided htransition _ ih =>
    rcases stacked_of_transition hcomes hundecided htransition hp with hnext | hfull
    · exact ih (hcomes.next hundecided htransition) hnext
    · exact .inr hfull

/-- A move keeps all limits unless it reveals a card too many. -/
theorem stacked_of_makeMove {res : MoveResult} (hs : s.store.Stacked r.definition)
    (h : r.makeMove s m = .ok res) :
    res.state.store.Stacked r.definition ∨ r.Overfills s m := by
  obtain ⟨q, ⟨x, p, p', k, hx, hcarried, hout, hpasses⟩, -, hres⟩ := comesTo_of_makeMove h
  rw [hres]
  have hp : p.state.store.Stacked r.definition := (carryOut_touched hx hcarried).stacked hs
  rcases stacked_of_setsOut hx hcarried hout hp with hp' | hfull
  · exact hpasses.stacked ⟨x, p, p', 0, hx, hcarried, hout, .none p'⟩ hp'
  · exact .inr hfull

end Rules

/-! ## Games -/

namespace Game

variable {g : Game} {moves : List Move} {s : State}

/-- A blank state has no tokens. -/
theorem stacked_of_blank {d : Definition} {count : Nat} {seed : UInt64} {s : State}
    (h : d.blank count seed = .ok s) : s.store.Stacked d := by
  have hkinds : s.store.allTokens.map Token.kind = [] := by
    apply (Multiset.coe_eq_zero _).1
    exact (Definition.of_blank h).kinds
  intro zone limit _ _
  have hnone : s.store.tokens zone = [] := by
    apply List.eq_nil_iff_forall_not_mem.2
    intro t ht
    have hall := Store.mem_allTokens_of_mem_tokens ht
    rw [List.map_eq_nil_iff.1 hkinds] at hall
    cases hall
  rw [hnone]
  exact Nat.zero_le _

/-- A zone to which no card is revealed from another keeps its limits in every state of a game. -/
theorem Played.keeps (h : g.Played moves s) {zone : ZoneId}
    (hzone : ∀ source, g.definition.Reveals source zone → source = zone) :
    s.store.Keeps g.definition zone := by
  refine h.of_changes (P := fun s => s.store.Keeps g.definition zone)
    (fun hblank => stacked_of_blank hblank zone) (fun hchanges hs => ?_)
  cases hchanges with
  | touch htouches => exact htouches.keeps hs
  | endCard => exact (State.eases_endCard hzone).keeps hs

/-- A game starts with all limits kept. -/
theorem stacked_of_start {count : Nat} {seed : UInt64} (h : g.start count seed = .ok s) :
    s.store.Stacked g.definition := by
  obtain ⟨blank, hblank, htouched⟩ := touched_of_start h
  exact htouched.stacked (stacked_of_blank hblank)

/-- In a state that is reached by moves every zone keeps its limits, except that cards can be too
many for the zone to which they are revealed from another.  All zones keep their limits until a move
reveals the first card too many: it ends a card in a state that keeps all limits, and the next card
is counted by a limit of the zone that is exhausted.  Whenever a card ends in a state that keeps all
limits, they are kept exactly if the next card is not one too many. -/
theorem stacked_of_played (h : g.Played moves s) :
    (∀ zone, (∀ source, g.definition.Reveals source zone → source = zone) →
        s.store.Keeps g.definition zone) ∧
      (s.store.Stacked g.definition ∨
        ∃ (before : List Move) (m : Move) (after : List Move) (s' : State) (r : Rules),
          moves = before ++ m :: after ∧ g.Played before s' ∧ r.game = g ∧
            s'.store.Stacked g.definition ∧ r.Overfills s' m) ∧
      ∀ (r : Rules) (s' : State) (m : Move) (u : State), r.game = g → r.EndsCardIn s' m u →
        u.store.Stacked g.definition →
          ((u.endCard g.definition).store.Stacked g.definition ↔ ¬ u.Overfills g.definition) := by
  refine ⟨fun zone hzone => h.keeps hzone, ?_, ?_⟩
  · induction h with
    | start h => exact .inl (stacked_of_start h)
    | @move moves s r m res hprior hgame hmove ih =>
      subst hgame
      rcases ih with hs | ⟨before, m', after, s', r', rfl, hfull⟩
      · rcases Rules.stacked_of_makeMove hs hmove with hres | hfull
        · exact .inl hres
        · exact .inr ⟨moves, m, [], s, r, rfl, hprior, rfl, hs, hfull⟩
      · exact .inr ⟨before, m', after ++ [m], s', r', by simp, hfull⟩
  · rintro r s' m u rfl hends hu
    constructor
    · intro hkept hfull
      exact State.not_stacked_endCard hends.isSome_card? hfull hkept
    · exact State.stacked_endCard hu

end Game

/-! ## A market -/

/-- A game with a row of cards that has room for one, and a deck from which the next one comes. -/
def Definition.market : Definition :=
  { Definition.minimal "market" with
    zones := [{ id := "deck" }, { id := "row" }]
    tokenTypes := [{ id := "ware" }]
    stackingLimits := [{ id := "room", zones := ["row"], max := 1 }]
    setup := [.create "ware" (.id "row"), .create "ware" (.id "deck")]
    actions := [{ id := "sell" }]
    order := .cardDriven
      { CardRules.ofSeats [⟨0⟩, ⟨1⟩] with
        maxActing := 1, drawZone := some "deck", playedZone := some "row" } }

/-- The rules of that game, under the usual limits. -/
def Rules.market : Rules := { game := .ofDefinition .market }

/-- Where two seats start that game. -/
def State.market : State := (Rules.market.game.start 2 0).toOption.getD default

/-- A sale ends the card, and the next one is revealed to the row although there is no room. -/
theorem Game.stacked_of_played_market :
    ∃ res, Rules.market.makeMove .market (.named "sell") = .ok res ∧
      Rules.market.game.Played [.named "sell"] res.state ∧
      res.state.store.size "row" = 2 ∧ ¬ res.state.store.Stacked Rules.market.game.definition ∧
      ∃ (s : State) (r : Rules), r.game = Rules.market.game ∧
        s.store.Stacked Rules.market.game.definition ∧ r.Overfills s (.named "sell") := by
  obtain ⟨res, hres⟩ : ∃ res, Rules.market.makeMove .market (.named "sell") = .ok res :=
    exists_ok_of_isOk (by decide +kernel)
  have hstart : Rules.market.game.start 2 0 = .ok .market := eq_ok_getD (by decide +kernel)
  have hplayed : Rules.market.game.Played [.named "sell"] res.state :=
    .move (.start hstart) rfl hres
  have hafter : (Rules.market.makeMove .market (.named "sell")).toOption.map
      (fun res => (res.state.store.size "row",
        (checkStacking Rules.market.game.definition res.state.store "row").isOk)) =
        some (2, false) := by decide +kernel
  rw [hres] at hafter
  obtain ⟨hrow, hchecked⟩ := Prod.mk.inj (Option.some.inj hafter)
  have hbroken : ¬ res.state.store.Stacked Rules.market.game.definition := by
    intro hkept
    rw [Store.checkStacking_eq_ok_iff.2 (hkept "row")] at hchecked
    cases hchecked
  obtain ⟨-, hstacked | ⟨before, m, after, s, r, hmoves, -, hgame, hs, hfull⟩, -⟩ :=
    Game.stacked_of_played hplayed
  · exact absurd hstacked hbroken
  · have hm : m = .named "sell" := by
      cases before with
      | nil => exact (List.cons.inj hmoves).1.symm
      | cons m' before => simp at hmoves
    rw [hm] at hfull
    exact ⟨res, hres, hplayed, hrow, hbroken, s, r, hgame, hs, hfull⟩

end Tabletop
