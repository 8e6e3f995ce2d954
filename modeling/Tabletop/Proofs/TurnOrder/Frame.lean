import Tabletop.Proofs.Board.Contents
import Tabletop.Proofs.Effect.Lots
import Tabletop.Proofs.Play.Phases
import Tabletop.Proofs.TurnOrder.TurnCount
import Tabletop.Proofs.TurnOrder.Grants

/-!
# How far effects reach

Effects change variables, tokens and markers, and they suspend the current phase.  After any run of
them the zones and the seats, the active seat, the turn, the uses of the actions, the lasting
effects, the fingerprint and the seed of the random numbers are what they were.  Of the turn order
they reach no more than the books of a card, and there the back of the pending grants, the number of
the next grant, and what is said about who shall be eligible.

A new grant gets its id from its number.  As long as the numbers do not run out, grants of one run
differ in their ids from each other; they differ from those that were pending if the numbers are
ahead of these.  In a game they always are, but a state can be put together in which they are not.

Main statement: `Session.run_spares`.
-/

namespace Tabletop

/-! ## Grants behind the others -/

namespace CardState

variable {c c' c'' : CardState} {new : List Grant} {n : Nat}

/-- New grants are pending behind the others, numbered from the next number on, and any seat can
have been said to be eligible or not.  All else about the card is what it was. -/
structure Gains (c : CardState) (new : List Grant) (c' : CardState) : Prop where
  course : c.SameCourse c'
  cardIndex : c'.cardIndex = c.cardIndex
  grants : c'.grants = c.grants ++ new
  next : c'.nextGrant = c.nextGrant + UInt32.ofNat new.length
  ids : new.map (·.id) =
    (List.range new.length).map (fun k => grantId (c.nextGrant + UInt32.ofNat k).toNat)

/-- The numbers are ahead of the pending grants: none of these has the id of a number to come. -/
def Ahead (c : CardState) : Prop :=
  ∀ grant ∈ c.grants, ∀ k, c.nextGrant.toNat ≤ k → grant.id ≠ grantId k

/-- Grants that are pending under numbers that have been issued are behind the numbers to come. -/
theorem Numbered.ahead (h : c.Numbered n) : c.Ahead := by
  intro grant hgrant k hk hid
  obtain ⟨l, hl, hnumber⟩ := List.mem_map.1 (h.ids.subset (List.mem_map_of_mem hgrant))
  have hsame : l = k := grantId_injective (hnumber.trans hid)
  have hlt : l < n := List.mem_range.1 hl
  rw [h.next] at hk
  omega

namespace Gains

/-- Without a new grant the books gain nothing. -/
theorem refl (c : CardState) : c.Gains [] c :=
  ⟨.refl c, rfl, (List.append_nil _).symm, (UInt32.add_zero _).symm, rfl⟩

/-- A grant that is issued has the next number. -/
theorem grant (h : c.Gains new c') (offer : GrantOffer) (seat : Seat) :
    c.Gains (new ++ [offer.grant (grantId c'.nextGrant.toNat) seat]) (c'.grant offer seat) where
  course := h.course.trans ⟨rfl, rfl, rfl, rfl⟩
  cardIndex := h.cardIndex
  grants := by
    rw [← List.append_assoc, ← h.grants]
    rfl
  next := by
    rw [List.length_append, UInt32.ofNat_add, ← UInt32.add_assoc, ← h.next]
    rfl
  ids := by
    rw [List.map_append, h.ids, List.length_append, List.length_singleton, List.range_succ,
      List.map_append, List.map_singleton, List.map_singleton, ← h.next]
    rfl

/-- Saying whether a seat is eligible issues no grant. -/
theorem override (h : c.Gains new c') (seat : Seat) (eligible : Bool) :
    c.Gains new (c'.setOverride seat eligible) :=
  ⟨h.course.trans ⟨rfl, rfl, rfl, rfl⟩, h.cardIndex, h.grants, h.next, h.ids⟩

/-- The numbers of the new grants, as long as they do not run out. -/
theorem ids_eq (h : c.Gains new c') (hroom : c.nextGrant.toNat + new.length < UInt32.size) :
    new.map (·.id) = (List.range' c.nextGrant.toNat new.length).map grantId := by
  rw [h.ids, List.range'_eq_map_range, List.map_map]
  refine List.map_congr_left (fun k hk => congrArg grantId ?_)
  have hlt : k < new.length := List.mem_range.1 hk
  have hbelow : c.nextGrant.toNat + k < UInt32.size := by omega
  have hsmall : (UInt32.ofNat k).toNat = k := UInt32.toNat_ofNat_of_lt' (by omega)
  rw [UInt32.toNat_add, hsmall]
  exact Nat.mod_eq_of_lt hbelow

/-- The next number has gone on by the number of new grants, as long as there are numbers left. -/
theorem next_toNat (h : c.Gains new c') (hroom : c.nextGrant.toNat + new.length < UInt32.size) :
    c'.nextGrant.toNat = c.nextGrant.toNat + new.length := by
  have hsmall : (UInt32.ofNat new.length).toNat = new.length :=
    UInt32.toNat_ofNat_of_lt' (by omega)
  rw [h.next, UInt32.toNat_add, hsmall]
  exact Nat.mod_eq_of_lt hroom

/-- New grants have ids of their own, as long as there are numbers left. -/
theorem nodup (h : c.Gains new c') (hroom : c.nextGrant.toNat + new.length < UInt32.size) :
    (new.map (·.id)).Nodup := by
  rw [h.ids_eq hroom]
  exact (List.nodup_range' _).map grantId_injective

/-- A new grant has one of the numbers that have been given out since, as long as there are numbers
left. -/
theorem exists_number (h : c.Gains new c') (hroom : c.nextGrant.toNat + new.length < UInt32.size)
    {grant : Grant} (hgrant : grant ∈ new) :
    ∃ k, c.nextGrant.toNat ≤ k ∧ k < c.nextGrant.toNat + new.length ∧ grant.id = grantId k := by
  have hid : grant.id ∈ new.map (·.id) := List.mem_map_of_mem hgrant
  rw [h.ids_eq hroom] at hid
  obtain ⟨k, hk, hnumber⟩ := List.mem_map.1 hid
  obtain ⟨hle, hlt⟩ := List.mem_range'_1.1 hk
  exact ⟨k, hle, hlt, hnumber.symm⟩

/-- Where the numbers are ahead, the ids of new grants are new. -/
theorem fresh (h : c.Gains new c') (hroom : c.nextGrant.toNat + new.length < UInt32.size)
    (hahead : c.Ahead) : ∀ grant ∈ new, ∀ old ∈ c.grants, grant.id ≠ old.id := by
  intro grant hgrant old hold hsame
  obtain ⟨k, hle, -, hid⟩ := h.exists_number hroom hgrant
  exact hahead old hold k hle (hsame.symm.trans hid)

/-- The numbers stay ahead. -/
theorem ahead (h : c.Gains new c') (hroom : c.nextGrant.toNat + new.length < UInt32.size)
    (hahead : c.Ahead) : c'.Ahead := by
  intro grant hgrant k hk
  rw [h.next_toNat hroom] at hk
  rw [h.grants] at hgrant
  rcases List.mem_append.1 hgrant with hold | hnew
  · exact hahead grant hold k (by omega)
  · obtain ⟨l, -, hlt, hid⟩ := h.exists_number hroom hnew
    intro hsame
    have : l = k := grantId_injective (hid.symm.trans hsame)
    omega

end Gains

/-- All that effects do to a card is to issue grants behind the others and to speak about
eligibility. -/
theorem Stirs.gains (h : c.Stirs c') : ∃ new, c.Gains new c' := by
  induction h with
  | refl => exact ⟨[], .refl c⟩
  | tail _ hstir ih =>
    obtain ⟨new, hnew⟩ := ih
    cases hstir with
    | grant seat => exact ⟨_, hnew.grant _ seat⟩
    | override seat eligible => exact ⟨new, hnew.override seat eligible⟩

end CardState

/-! ## What is spared -/

/-- All that effects do not reach is what it was, and phases have at most been suspended on top of
those that were. -/
structure State.Spares (s t : State) : Prop extends s.Kept t where
  zones : ∀ zone, t.store.hasZone zone = s.store.hasZone zone
  fingerprint : t.fingerprint = s.fingerprint
  seed : t.random.seed = s.random.seed
  suspended : s.suspended <+: t.suspended

/-- Effects leave the fingerprint for later. -/
theorem Alters.fingerprint {s : Setting} {x y : Session} (h : Alters s x y) :
    y.state.fingerprint = x.state.fingerprint := by
  cases h with
  | storeVar hslot n =>
    unfold Site.storeVar
    split
    · rfl
    · rw [Site.note_state]
      unfold Session.withState State.setVar
      split <;> rfl
  | moveBlock =>
    rw [Site.arriveAll_state]
    rfl
  | moveAcross =>
    unfold Site.arrive
    rw [Site.note_state]
    rfl
  | moveWithin => rfl
  | roll => rfl
  | grant => rfl
  | override => rfl
  | interrupt => rfl
  | _ =>
    rw [Site.note_state]
    rfl

/-- No zone comes or goes. -/
theorem Alters.hasZone {s : Setting} {x y : Session} (h : Alters s x y) (zone : ZoneId) :
    y.state.store.hasZone zone = x.state.store.hasZone zone := by
  cases h with
  | storeVar hslot n =>
    unfold Site.storeVar
    split
    · rfl
    · rw [Site.note_state]
      unfold Session.withState State.setVar
      split <;> rfl
  | setMarker =>
    rw [Site.note_state]
    rfl
  | moveWithin hlocated htaken hplace hput => exact (Store.frame_relocate htaken hput).1 zone
  | moveAcross hne hlocated htaken hplace hput =>
    unfold Site.arrive
    rw [Site.note_state]
    exact (Store.frame_relocate htaken hput).1 zone
  | @moveBlock here _ source target block rest old tokens hne hblock hparts _ hold htokens =>
    rw [Site.arriveAll_state]
    refine (Store.frame_moveBlock hblock hparts hold (fun token hmem => ?_)).1 zone
    rw [htokens] at hmem
    split at hmem
    · exact List.mem_append.1 hmem
    · exact (List.mem_append.1 hmem).symm
  | shuffle hmany hshuffled =>
    rw [Site.note_state]
    exact (Store.frame_shuffle hmany (RandomState.perm_of_shuffle hshuffled)).1 zone
  | createToken _ _ hput =>
    rw [Site.note_state]
    exact (Store.frame_insert? hput).1 zone
  | destroyToken _ _ htaken =>
    rw [Site.note_state]
    exact (Store.frame_remove? htaken).1 zone
  | setTokenProp =>
    rw [Site.note_state]
    exact Store.hasZone_modify_eq _ _ _ _
  | roll => rfl
  | grant => rfl
  | override => rfl
  | interrupt => rfl

/-- Interrupts come on top of the phases that were suspended before. -/
theorem State.Interrupted.prefix_suspended {s t : State} {turns : TurnStructure}
    {pushed : List PhaseId} (h : Interrupted turns pushed s t) : s.suspended <+: t.suspended := by
  by_cases hnone : pushed = []
  · subst hnone
    rw [h.same.1]
  · have hline : t.suspended = s.suspended ++ [s.phase] ++ pushed.dropLast := by
      rw [← t.dropLast_line, h.line, List.dropLast_append_of_ne_nil hnone, State.line]
    rw [hline, List.append_assoc]
    exact List.prefix_append _ _

/-- What runs of effects spare. -/
theorem Reaches.spares {s : Setting} {x y : Session} (h : Reaches s x y) :
    x.state.Spares y.state := by
  obtain ⟨pushed, hpushed⟩ := h.interrupted
  exact {
    h.kept with
    zones := fun zone => h.unchanged (·.store.hasZone zone) (fun _ _ h => h.hasZone zone)
    fingerprint := h.unchanged (·.fingerprint) (fun _ _ => Alters.fingerprint)
    seed := h.seed
    suspended := hpushed.prefix_suspended }

/-- A run of effects is several steps, or none. -/
theorem Session.reaches_of_run {x y : Session} {setting : Setting} {root : String} {b : Bindings}
    {effects : List Effect} (h : x.run setting root b effects = .ok y) : Reaches setting x y := by
  have hasks := x.run_asks setting root b effects
  rw [h] at hasks
  exact Proceeded.reaches hasks

/-- What a run of effects leaves as it was, whatever the effects are.  The turn order is as it was,
but that grants may have come to be pending behind the others, and that seats may have been said to
be eligible or not.  The new grants are numbered from the next number on, so their ids differ, also
from those of the grants that were pending if the numbers were ahead of these.  Effects that draw no
lots leave the random numbers where they are. -/
theorem Session.run_spares {x y : Session} {setting : Setting} {root : String} {b : Bindings}
    {effects : List Effect} (h : x.run setting root b effects = .ok y) :
    x.state.Spares y.state ∧
      (x.state.order.card? = none → y.state.order = x.state.order) ∧
      (∀ c, x.state.order = .cardDriven c → ∃ new c', y.state.order = .cardDriven c' ∧
        c.Gains new c' ∧ (c.nextGrant.toNat + new.length < UInt32.size →
          c'.nextGrant.toNat = c.nextGrant.toNat + new.length ∧ (new.map (·.id)).Nodup ∧
            (c.Ahead → c'.Ahead ∧ ∀ grant ∈ new, ∀ old ∈ c.grants, grant.id ≠ old.id))) ∧
      ((∀ e ∈ effects, e.drawsLots = false) → y.state.random = x.state.random) := by
  have hreaches := reaches_of_run h
  have hstirs := hreaches.stirs
  refine ⟨hreaches.spares, fun hcard => hstirs.order_eq hcard, fun c hc => ?_, run_random h⟩
  obtain ⟨c', hcards, hc'⟩ := Tracker.Stirs.of_card (hc ▸ hstirs.order)
  obtain ⟨new, hgains⟩ := hcards.gains
  refine ⟨new, c', hc', hgains, fun hroom => ⟨hgains.next_toNat hroom, hgains.nodup hroom, ?_⟩⟩
  exact fun hahead => ⟨hgains.ahead hroom hahead, hgains.fresh hroom hahead⟩

/-- In every state of a card-driven game the numbers are ahead of the pending grants, as long as
they have not run out. -/
theorem Game.Issued.ahead {g : Game} {rules : CardRules} {n : Nat} {s : State}
    (hrules : g.definition.order = .cardDriven rules) (h : g.Issued n s) (hroom : n < UInt32.size) :
    ∃ card, s.order = .cardDriven card ∧ card.Ahead := by
  obtain ⟨card, hcard, hnumbered⟩ := h.numbered hrules hroom
  exact ⟨card, hcard, hnumbered.ahead⟩

/-! ## A muster -/

/-- Each seat is granted a free operation, and the first one shall sit out the next card. -/
def Effect.muster : List Effect :=
  [.forAll "who" .seats [.grantFreeOperation { seat := .binding "who" }],
    .setEligibilityOverride (.id ⟨0⟩) false]

/-- The first seat acts, and no decision may be left open. -/
def Setting.muster : Setting := { game := .ofDefinition .levy, actor := ⟨0⟩ }

/-- Behind the two grants of the start two more are pending under new ids, and nothing is drawn. -/
theorem Session.run_spares_muster :
    ∃ y c new c', Session.run { state := .levy } .muster "muster" ∅ Effect.muster = .ok y ∧
      State.levy.order = .cardDriven c ∧ y.state.order = .cardDriven c' ∧
      c.grants.map (·.id) = ["grant-0", "grant-1"] ∧ c.Gains new c' ∧
      new.map (·.id) = ["grant-2", "grant-3"] ∧ c'.nextGrant.toNat = 4 ∧
      (∀ grant ∈ new, ∀ old ∈ c.grants, grant.id ≠ old.id) ∧
      y.state.random = State.levy.random ∧ State.levy.Spares y.state := by
  obtain ⟨y, hy⟩ : ∃ y, Session.run { state := .levy } .muster "muster" ∅ Effect.muster = .ok y :=
    exists_ok_of_isOk (by decide +kernel)
  have hafter : (Session.run { state := .levy } .muster "muster" ∅ Effect.muster).toOption.map
      (fun y => y.state.grants.map (·.id)) = some ["grant-0", "grant-1", "grant-2", "grant-3"] := by
    decide +kernel
  have hbefore : State.levy.order.card?.map (fun c => (c.nextGrant, c.grants.map (·.id))) =
      some (2, ["grant-0", "grant-1"]) := by decide +kernel
  have hlots : ∀ e ∈ Effect.muster, e.drawsLots = false := by decide +kernel
  have hstart : Rules.levy.game.start 2 0 = .ok .levy := eq_ok_getD (by decide +kernel)
  obtain ⟨c, hc, hahead⟩ := (Game.Issued.start hstart).ahead rfl (by decide +kernel)
  obtain ⟨hspares, -, hcards, hrandom⟩ := run_spares hy
  obtain ⟨new, c', hc', hgains, hnumbers⟩ := hcards c hc
  rw [hc] at hbefore
  obtain ⟨hnext, hpending⟩ := Prod.mk.inj (Option.some.inj hbefore)
  have hnew : new.map (·.id) = ["grant-2", "grant-3"] := by
    rw [hy] at hafter
    have hids : y.state.grants.map (·.id) = ["grant-0", "grant-1", "grant-2", "grant-3"] :=
      Option.some.inj hafter
    rw [State.grants_of_card? (congrArg Tracker.card? hc'), hgains.grants, List.map_append,
      hpending] at hids
    exact List.append_cancel_left hids
  have hlength : new.length = 2 := by simpa using congrArg List.length hnew
  obtain ⟨hcount, -, hfresh⟩ := hnumbers (by rw [hnext, hlength]; decide)
  rw [hnext, hlength] at hcount
  exact ⟨y, c, new, c', hy, hc, hc', hpending, hgains, hnew, hcount, (hfresh hahead).2,
    hrandom hlots, hspares⟩

/-- A state in which a grant is pending under the number that is to be issued next. -/
def State.muster : State :=
  { State.levy with
    order := .cardDriven
      { seatOrder := [⟨0⟩, ⟨1⟩], grants := [{ id := "grant-0", seat := ⟨1⟩, remaining := 1 }] } }

/-- Where the numbers are not ahead, a new grant gets the id of one that is pending. -/
theorem Session.run_muster :
    ∃ y, Session.run { state := .muster } .muster "muster" ∅ Effect.muster = .ok y ∧
      State.muster.grants.map (·.id) = ["grant-0"] ∧
      y.state.grants.map (·.id) = ["grant-0", "grant-0", "grant-1"] := by
  obtain ⟨y, hy⟩ : ∃ y, Session.run { state := .muster } .muster "muster" ∅ Effect.muster = .ok y :=
    exists_ok_of_isOk (by decide +kernel)
  have hafter : (Session.run { state := .muster } .muster "muster" ∅ Effect.muster).toOption.map
      (fun y => y.state.grants.map (·.id)) = some ["grant-0", "grant-0", "grant-1"] := by
    decide +kernel
  rw [hy] at hafter
  exact ⟨y, hy, by decide +kernel, Option.some.inj hafter⟩

end Tabletop
