import Tabletop.Proofs.Play.Conforms
import Tabletop.Proofs.Play.Stacking

/-!
# Tokens that are lost as a card ends

Where a card ends, the first token of the draw zone is taken out and then put in front of the played
zone.  Nothing makes sure that there is a played zone to put it into.  If there is none, the token
has been taken out all the same, and it is lost without a word; if there is one, or no token to be
taken, the tokens on the table are those that were there.

Main statement: `State.endCard_keeps_iff`, with a caravan whose played zone is not declared.
-/

namespace Tabletop

/-! ## Reveals of a token -/

/-- A definition reveals cards from one zone to one other, if it reveals them at all. -/
theorem Definition.Reveals.unique {d : Definition} {source target source' target' : ZoneId}
    (h : d.Reveals source target) (h' : d.Reveals source' target') :
    source' = source ∧ target' = target := by
  obtain ⟨rules, horder, hsource, htarget⟩ := h
  obtain ⟨rules', horder', hsource', htarget'⟩ := h'
  obtain rfl : rules = rules' := TurnOrder.cardDriven.inj (horder.symm.trans horder')
  exact ⟨Option.some.inj (hsource'.symm.trans hsource),
    Option.some.inj (htarget'.symm.trans htarget)⟩

namespace Store

variable {s s' : Store} {source target : ZoneId} {token : Token}

/-- The first token of a zone has been put in front of another, or of its own. -/
def Turns (s : Store) (source target : ZoneId) (s' : Store) : Prop :=
  ∃ token taken, s.remove? source 0 = some (token, taken) ∧
    taken.insert? target token .front = some s'

/-- Turning a token over leaves the same tokens on the table. -/
theorem Turns.perm (h : s.Turns source target s') : s'.allTokens.Perm s.allTokens := by
  obtain ⟨token, taken, htaken, hput⟩ := h
  exact allTokens_relocate htaken hput

/-- The token that is taken out at the first index is the first one. -/
theorem head?_tokens_of_remove? (h : s.remove? source 0 = some (token, s')) :
    (s.tokens source).head? = some token := by
  obtain ⟨tokens, htokens, htoken, -⟩ := remove?_eq_some h
  rw [tokens_of_tokens? htokens, List.head?_eq_getElem?]
  exact htoken

/-- A token that has been taken out makes a difference. -/
theorem not_perm_of_remove? (h : s.remove? source 0 = some (token, s')) :
    ¬s'.allTokens.Perm s.allTokens := by
  intro hperm
  have hlength := (allTokens_remove? h).length_eq
  rw [List.length_cons, hperm.length_eq] at hlength
  omega

end Store

namespace State

variable {s : State} {d : Definition} {source target : ZoneId} {token : Token}

/-- The end of the card loses a token: it comes first in the draw zone, and there is no played
zone. -/
def Loses (s : State) (d : Definition) (token : Token) : Prop :=
  s.order.card?.isSome = true ∧ ∃ source target, d.Reveals source target ∧
    (s.store.tokens source).head? = some token ∧ s.store.hasZone target = false

/-- A reveal has no token to take, or brings the one it takes to a zone that is there, or loses
it. -/
theorem reveal_cases (s : State) (source target : ZoneId) :
    (s.store.tokens source = [] ∧ (s.reveal source target).store = s.store) ∨
      (s.store.hasZone target = true ∧ s.store.Turns source target (s.reveal source target).store) ∨
      ∃ token, s.store.hasZone target = false ∧
        s.store.remove? source 0 = some (token, (s.reveal source target).store) := by
  cases htokens : s.store.tokens source with
  | nil =>
    left
    rw [reveal_of_nil htokens]
    exact ⟨rfl, rfl⟩
  | cons token rest =>
    right
    have hsource := Store.tokens?_of_cons htokens
    have htaken : s.store.remove? source 0 = some (token, s.store.replace source rest) := by
      simp [Store.remove?, hsource]
    have hzone := Store.hasZone_replace_eq (Store.hasZone_of_tokens? hsource) rest target
    rw [store_reveal_of_cons hsource]
    cases htarget : s.store.hasZone target with
    | true =>
      left
      rw [htarget] at hzone
      refine ⟨rfl, token, _, htaken, ?_⟩
      rw [Store.insert?, Store.tokens?_of_hasZone hzone]
      rfl
    | false =>
      right
      rw [htarget] at hzone
      refine ⟨token, rfl, ?_⟩
      have hnone : (s.store.replace source rest).tokens? target = none :=
        Option.isNone_iff_eq_none.1 (Option.isSome_eq_false_iff.1 hzone)
      rw [Store.insert?, hnone]
      exact htaken

/-- The end of a card turns the next one over or leaves all tokens where they are; or it loses a
token. -/
theorem endCard_cases (s : State) (d : Definition) :
    (((s.endCard d).store = s.store ∨ ∃ source target, d.Reveals source target ∧
        s.store.Turns source target (s.endCard d).store) ∧ ¬∃ token, s.Loses d token) ∨
      ∃ source token, s.Loses d token ∧
        s.store.remove? source 0 = some (token, (s.endCard d).store) := by
  by_cases hcard : s.order.card?.isSome = true
  · by_cases hreveals : ∃ source target, d.Reveals source target
    · obtain ⟨source, target, hreveals⟩ := hreveals
      have hkept (h : s.store.tokens source = [] ∨ s.store.hasZone target = true) :
          ¬∃ token, s.Loses d token := by
        rintro ⟨token, -, source', target', hreveals', hfirst, hnone⟩
        obtain ⟨rfl, rfl⟩ := hreveals.unique hreveals'
        rcases h with hempty | hzone
        · rw [hempty] at hfirst
          cases hfirst
        · rw [hzone] at hnone
          cases hnone
      rw [store_endCard_of_reveals hcard hreveals]
      rcases s.reveal_cases source target with ⟨hempty, hsame⟩ | ⟨hzone, hturns⟩ |
        ⟨token, hnone, htaken⟩
      · exact .inl ⟨.inl hsame, hkept (.inl hempty)⟩
      · exact .inl ⟨.inr ⟨source, target, hreveals, hturns⟩, hkept (.inr hzone)⟩
      · have hfirst := Store.head?_tokens_of_remove? htaken
        exact .inr ⟨source, token, ⟨hcard, source, target, hreveals, hfirst, hnone⟩, htaken⟩
    · left
      refine ⟨.inl ?_, ?_⟩
      · rcases s.store_endCard d with hsame | ⟨source, target, h, -⟩
        · exact hsame
        · exact absurd ⟨source, target, h⟩ hreveals
      · rintro ⟨token, -, source, target, h, -⟩
        exact hreveals ⟨source, target, h⟩
  · left
    refine ⟨.inl ?_, fun ⟨token, h, _⟩ => hcard h⟩
    unfold endCard
    split
    · rename_i card _ horder
      rw [horder] at hcard
      exact absurd rfl hcard
    · rfl

/-- The end of a card turns the first token of the draw zone over to the played zone, or leaves all
tokens where they are, exactly if it loses none; and exactly then the tokens on the table are those
that were there.  If it loses one, that token is taken out of its zone, and nothing else happens to
the tokens. -/
theorem endCard_keeps_iff (s : State) (d : Definition) :
    (((s.endCard d).store = s.store ∨ ∃ source target, d.Reveals source target ∧
        s.store.Turns source target (s.endCard d).store) ↔ ¬∃ token, s.Loses d token) ∧
      ((s.endCard d).store.allTokens.Perm s.store.allTokens ↔ ¬∃ token, s.Loses d token) ∧
      ∀ token, s.Loses d token → ∃ source,
        s.store.remove? source 0 = some (token, (s.endCard d).store) ∧
          s.store.allTokens.Perm (token :: (s.endCard d).store.allTokens) := by
  rcases s.endCard_cases d with ⟨hkept, hnone⟩ | ⟨source, token, hloses, htaken⟩
  · refine ⟨iff_of_true hkept hnone, iff_of_true ?_ hnone, fun token h => absurd ⟨token, h⟩ hnone⟩
    rcases hkept with hsame | ⟨source, target, -, hturns⟩
    · rw [hsame]
    · exact hturns.perm
  · have hdiffers := Store.not_perm_of_remove? htaken
    have hlost : ¬¬∃ token, s.Loses d token := not_not_intro ⟨token, hloses⟩
    refine ⟨iff_of_false (fun hkept => ?_) hlost, iff_of_false hdiffers hlost,
      fun other hother => ?_⟩
    · rcases hkept with hsame | ⟨source', target', -, hturns⟩
      · exact hdiffers (by rw [hsame])
      · exact hdiffers hturns.perm
    · obtain ⟨-, source₁, target₁, hreveals₁, hfirst₁, -⟩ := hother
      obtain ⟨-, source₂, target₂, hreveals₂, hfirst₂, -⟩ := hloses
      obtain ⟨rfl, -⟩ := hreveals₁.unique hreveals₂
      obtain rfl : other = token := Option.some.inj (hfirst₁.symm.trans hfirst₂)
      exact ⟨source, htaken, Store.allTokens_remove? htaken⟩

/-- Where the zones on the table are those declared, a token is lost only to a zone that is not. -/
theorem TableConforms.loses_iff (hs : s.TableConforms d) : s.Loses d token ↔
    s.order.card?.isSome = true ∧ ∃ source target, d.Reveals source target ∧
      (s.store.tokens source).head? = some token ∧ ∀ z ∈ d.zones, z.id ≠ target := by
  have hzone (target : ZoneId) : s.store.hasZone target = false ↔ ∀ z ∈ d.zones, z.id ≠ target := by
    rw [← Bool.not_eq_true, hs.zones]
    simp
  simp only [Loses, hzone]

end State

/-! ## A caravan -/

/-- A game whose draw zone is declared and whose played zone is not. -/
def Definition.caravan : Definition :=
  { Definition.minimal "caravan" with
    zones := [{ id := "stable" }]
    tokenTypes := [{ id := "camel" }]
    setup := [.create "camel" (.id "stable")]
    actions := [{ id := "travel" }]
    order := .cardDriven
      { CardRules.ofSeats [⟨0⟩, ⟨1⟩] with
        maxActing := 1, drawZone := some "stable", playedZone := some "road" } }

/-- Where two seats start that game. -/
def State.caravan : State := ((Game.ofDefinition .caravan).start 2 0).toOption.getD default

/-- The only token is in the stable, and at the end of the first card it is lost: the zone that the
card is turned over to is none that the game declares. -/
theorem State.endCard_keeps_iff_caravan :
    (∃ token, State.caravan.Loses .caravan token ∧
        ∃ source target, Definition.caravan.Reveals source target ∧
          ∀ z ∈ Definition.caravan.zones, z.id ≠ target) ∧
      State.caravan.store.allTokens.map (·.id) = ["camel#0"] ∧
      (State.caravan.endCard .caravan).store.allTokens = [] ∧
      ¬(State.caravan.endCard .caravan).store.allTokens.Perm State.caravan.store.allTokens := by
  have hbefore : State.caravan.store.allTokens.map (·.id) = ["camel#0"] := by decide +kernel
  have hafter : (State.caravan.endCard .caravan).store.allTokens = [] := by decide +kernel
  have hdiffers : ¬(State.caravan.endCard .caravan).store.allTokens.Perm
      State.caravan.store.allTokens := by
    rw [hafter]
    intro hperm
    rw [← hperm.nil_eq] at hbefore
    cases hbefore
  have hkeeps := (endCard_keeps_iff .caravan .caravan).2.1
  obtain ⟨token, hloses⟩ := not_not.1 (fun hnone => hdiffers (hkeeps.2 hnone))
  have hdistinct : (Game.ofDefinition .caravan).definition.Distinct :=
    ⟨by decide, by decide, by decide, by decide, by decide, by decide⟩
  have hstart : (Game.ofDefinition .caravan).start 2 0 = .ok .caravan :=
    eq_ok_getD (by decide +kernel)
  have htable := Game.tableConforms_of_played hdistinct (.start hstart)
  obtain ⟨-, source, target, hreveals, -, hundeclared⟩ := htable.loses_iff.1 hloses
  exact ⟨⟨token, hloses, source, target, hreveals, hundeclared⟩, hbefore, hafter, hdiffers⟩

end Tabletop
