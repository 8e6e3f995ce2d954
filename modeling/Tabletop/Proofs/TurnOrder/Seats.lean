import Tabletop.Proofs.TurnOrder.Grants

/-!
# The seats that a state mentions

A state mentions seats in more than one place: the active seat, the seats for which lasting effects
run, the seats on a card, and the holders of grants.  All of them come from somewhere.  Effects can
mean the seats of the game, the active seat and the seat for which they run, and the turn order
designates seats that it lists, if it lists any.  So what holds of the seats of the game and of
those that its turn order lists holds of every seat that is mentioned.

Such a property is called `known` here.  Main statements: `Proceeded.seated` for runs of effects,
and `State.Seated.afterMove`, `State.Seated.skipStuckSeat` and `State.Seated.rotate` for the turn
order.
-/

namespace Tabletop

/-- The seats that a turn order lists. -/
def TurnOrder.seats : TurnOrder → List Seat
  | .fixed seats => seats
  | .cardDriven rules => rules.seats
  | _ => []

/-- The seats on a card and the holders of its grants are known. -/
structure CardState.Seated (known : Seat → Prop) (c : CardState) : Prop where
  listed : ∀ seat ∈ c.seatOrder, known seat
  holders : ∀ grant ∈ c.grants, known grant.seat

/-- The seats of the game are known, and so are all that the state mentions. -/
structure State.Seated (known : Seat → Prop) (s : State) : Prop where
  populated : 0 < s.seatCount
  existing : ∀ seat : Seat, seat.toNat < s.seatCount → known seat
  active : known s.active
  lasting : ∀ l ∈ s.lasting, known l.executor
  card : ∀ card, s.order.card? = some card → card.Seated known

/-- The seat that an event is about is known. -/
def Event.About (known : Seat → Prop) (e : Event) : Prop := ∀ seat, e.seat? = some seat → known seat

/-- All seats are known that a session mentions. -/
structure Session.Seated (known : Seat → Prop) (x : Session) : Prop where
  state : x.state.Seated known
  events : ∀ e ∈ x.events, e.About known

variable {known : Seat → Prop}

/-- Before books were stirred there were books. -/
theorem Tracker.Stirs.exists_card {t u : Tracker} {card' : CardState} (h : t.Stirs u)
    (hcard' : u.card? = some card') : ∃ card, t.card? = some card ∧ card.Stirs card' := by
  cases h with
  | same => exact ⟨card', hcard', .refl⟩
  | card h =>
    cases hcard'
    exact ⟨_, rfl, h⟩

/-- Only a tracker with a card has it modified. -/
theorem Tracker.card?_modifyCard (t : Tracker) (f : CardState → CardState) :
    (t.modifyCard f).card? = t.card?.map f := by
  cases t <;> rfl

namespace Event.About

/-- An event about no seat is about a known one. -/
theorem of_none {e : Event} (h : e.seat? = none) : e.About known := by
  intro seat hseat
  rw [h] at hseat
  cases hseat

/-- An event about a known seat is about a known one. -/
theorem of_some {e : Event} {seat : Seat} (h : e.seat? = some seat) (hknown : known seat) :
    e.About known := by
  intro seat' hseat
  rw [h] at hseat
  cases hseat
  exact hknown

end Event.About

/-- The seats of a game have smaller numbers than there are seats. -/
theorem Seat.lt_of_mem_all {seat : Seat} {count : Nat} (h : seat ∈ Seat.all count) :
    seat.toNat < count := by
  obtain ⟨i, hi, rfl⟩ := List.mem_map.1 h
  have hlt : i < count % 256 := List.mem_range.1 hi
  calc (UInt8.ofNat i).toNat ≤ i := Nat.mod_le _ _
    _ < count % 256 := hlt
    _ ≤ count := Nat.mod_le _ _

/-! ## Effects -/

namespace Site

variable (s : Site) (x : Session)

/-- Tokens that arrive raise events that are about no seat. -/
theorem about_of_mem_arriveAll {source target : ZoneId} {e : Event} {ts : List Token}
    (h : e ∈ (ts.foldl (fun x t => s.arrive x t.id source target) x).events) :
    e ∈ x.events ∨ e.About known := by
  induction ts generalizing x with
  | nil => exact .inl h
  | cons t ts ih =>
    rcases ih _ h with hfirst | habout
    · unfold arrive at hfirst
      rw [note_events] at hfirst
      rcases List.mem_append.1 hfirst with hold | hnew
      · exact .inl hold
      · rw [List.mem_singleton.1 hnew]
        exact .inr (.of_none rfl)
    · exact .inr habout

end Site

/-- Seats that effects can mean are known, if the seat is for which they run. -/
theorem State.Seated.known_of_knows {s : Setting} {x : Session} {seat : Seat}
    (hx : x.state.Seated known) (hactor : known s.actor) (h : s.Knows x seat) : known seat := by
  rcases h with hseat | rfl | rfl
  · exact hx.existing seat hseat
  · exact hx.active
  · exact hactor

/-- Effects raise events that are about known seats. -/
theorem Alters.about {s : Setting} {x y : Session} (h : Alters s x y) (hactor : known s.actor)
    (hx : x.state.Seated known) {e : Event} (he : e ∈ y.events) : e ∈ x.events ∨ e.About known := by
  have hnone {e' : Event} (hseat : e'.seat? = none) (h : e ∈ x.events ++ [e']) :
      e ∈ x.events ∨ e.About known := by
    rcases List.mem_append.1 h with hold | hnew
    · exact .inl hold
    · rw [List.mem_singleton.1 hnew]
      exact .inr (.of_none hseat)
  cases h with
  | @storeVar here x target name slot hslot n =>
    unfold Site.storeVar at he
    split at he
    · exact .inl he
    · rw [Site.note_events] at he
      rcases List.mem_append.1 he with hold | hnew
      · exact .inl hold
      · right
        rw [List.mem_singleton.1 hnew]
        intro seat hseat
        cases hscope : slot.scope with
        | seat seat' =>
          rw [hscope] at hseat
          cases hseat
          exact hx.known_of_knows hactor (here.known_of_varSlot x hslot hscope)
        | global =>
          rw [hscope] at hseat
          cases hseat
        | zone zone =>
          rw [hscope] at hseat
          cases hseat
  | moveBlock =>
    exact (Site.about_of_mem_arriveAll _ _ he).imp_left id
  | moveAcross =>
    unfold Site.arrive at he
    rw [Site.note_events] at he
    exact hnone rfl he
  | createToken =>
    rw [Site.note_events] at he
    exact hnone rfl he
  | interrupt => exact hnone rfl he
  | moveWithin => exact .inl he
  | roll => exact .inl he
  | grant => exact .inl he
  | override => exact .inl he
  | _ =>
    rw [Site.note_events] at he
    exact .inl he

/-- A step of a run mentions known seats only, if it runs for one. -/
theorem Proceeds.seated {s : Setting} {x y : Session} (h : Proceeds s x y) (hactor : known s.actor)
    (hx : x.Seated known) : y.Seated known := by
  obtain ⟨hstep, hvouches⟩ := h
  cases hstep with
  | spend => exact ⟨hx.state, hx.events⟩
  | alter h =>
    refine ⟨?_, fun e he => (h.about hactor hx.state he).elim (hx.events e) id⟩
    have hkept := h.kept
    refine ⟨hkept.seatCount ▸ hx.state.populated, hkept.seatCount ▸ hx.state.existing,
      hkept.active ▸ hx.state.active, hkept.lasting ▸ hx.state.lasting, fun card' hcard' => ?_⟩
    obtain ⟨card, hcard, hstirs⟩ := h.stirs.order.exists_card hcard'
    have hseated := hx.state.card card hcard
    constructor
    · rw [hstirs.sameCourse.seatOrder]
      exact hseated.listed
    · intro grant hgrant
      rw [← State.grants_of_card? hcard'] at hgrant
      rcases hvouches grant hgrant with hold | hknows
      · rw [State.grants_of_card? hcard] at hold
        exact hseated.holders grant hold
      · exact hx.state.known_of_knows hactor hknows

/-- A run mentions known seats only, if it runs for one. -/
theorem Proceeded.seated {s : Setting} {x y : Session} (h : Proceeded s x y)
    (hactor : known s.actor) (hx : x.Seated known) : y.Seated known := by
  induction h with
  | refl => exact hx
  | tail _ hstep ih => exact hstep.seated hactor ih

/-- Effects that are run for a known seat mention known seats only. -/
theorem seated_of_runEffects {setting : Setting} {root : String} {b : Bindings}
    {effects : List Effect} {s : State} {x : Session} (hactor : known setting.actor)
    (hs : s.Seated known) (h : runEffects setting root b effects s = .ok x) : x.Seated known :=
  (proceeded_of_runEffects h).seated hactor ⟨hs, nofun⟩

/-! ## The turn order -/

namespace CardState.Seated

variable {c c' : CardState}

/-- With grants dropped a card mentions no further seat. -/
theorem drops (h : c.Seated known) (hdrops : c.Drops c') (hseats : c'.seatOrder = c.seatOrder) :
    c'.Seated known :=
  ⟨hseats ▸ h.listed, fun grant hgrant => h.holders grant (hdrops.grants.subset hgrant)⟩

/-- A use of a grant leaves its holder as it is. -/
theorem consume (h : c.Seated known) (id : String) : (c.consume id).Seated known := by
  have hspend : ∀ grants : List Grant, ∀ grant ∈ CardState.consume.spend id grants,
      ∃ grant' ∈ grants, grant'.seat = grant.seat := by
    intro grants
    induction grants with
    | nil => nofun
    | cons first rest ih =>
      intro grant hgrant
      unfold CardState.consume.spend at hgrant
      split at hgrant
      · rcases List.mem_cons.1 hgrant with rfl | hrest
        · exact ⟨first, List.mem_cons_self, rfl⟩
        · exact ⟨grant, List.mem_cons_of_mem _ hrest, rfl⟩
      · rcases List.mem_cons.1 hgrant with rfl | hrest
        · exact ⟨_, List.mem_cons_self, rfl⟩
        · obtain ⟨grant', hgrant', hseat⟩ := ih grant hrest
          exact ⟨grant', List.mem_cons_of_mem _ hgrant', hseat⟩
  refine ⟨h.listed, fun grant hgrant => ?_⟩
  obtain ⟨grant', hgrant', hseat⟩ := hspend c.grants grant (List.mem_filter.1 hgrant).1
  exact hseat ▸ h.holders grant' hgrant'

/-- The seat that a card designates is known. -/
theorem known_seat? (h : c.Seated known) {seat : Seat}
    (hseat : c.seat?.or c.seatOrder.head? = some seat) : known seat := by
  rcases Option.or_eq_some_iff.1 hseat with hseat | ⟨-, hseat⟩
  · rcases Option.or_eq_some_iff.1 hseat with hholder | ⟨-, hnext⟩
    · obtain ⟨grant, hgrant, rfl⟩ := Option.map_eq_some_iff.1 hholder
      exact h.holders grant (List.mem_of_head? hgrant)
    · exact h.listed seat (CardState.of_nextEligible? hnext).1
  · exact h.listed seat (List.mem_of_head? hseat)

end CardState.Seated

namespace State.Seated

variable {s t : State} {d : Definition}

/-- The turn order and the tokens may change. -/
theorem congr (h : s.Seated known) (hactive : t.active = s.active)
    (hcount : t.seatCount = s.seatCount) (hlasting : t.lasting = s.lasting)
    (hcard : ∀ card, t.order.card? = some card → card.Seated known) : t.Seated known where
  populated := hcount ▸ h.populated
  existing := hcount ▸ h.existing
  active := hactive ▸ h.active
  lasting := hlasting ▸ h.lasting
  card := hcard

/-- Another place in the order is fine if its card mentions known seats. -/
theorem order (h : s.Seated known) {order : Tracker}
    (hcard : ∀ card, order.card? = some card → card.Seated known) :
    { s with order }.Seated known := h.congr rfl rfl rfl hcard

/-- Another seat may become active if it is known. -/
theorem withActive (h : s.Seated known) {active : Seat} (hactive : known active) :
    { s with active }.Seated known := ⟨h.populated, h.existing, hactive, h.lasting, h.card⟩

/-- The seat that the turn order designates is known, if those are that the definition lists. -/
theorem known_of_designated (h : s.Seated known) (hd : ∀ seat ∈ d.order.seats, known seat)
    {seat : Seat} (hseat : s.order.designated? d.order s.seatCount = some seat) : known seat := by
  unfold Tracker.designated? at hseat
  split at hseat
  · rename_i index seats _ horder
    split at hseat
    · cases hseat
    · rw [horder] at hd
      exact hd seat (List.mem_of_getElem? hseat)
  · rename_i card hcard
    exact (h.card card (by rw [hcard]; rfl)).known_seat? hseat
  · exact h.existing seat (Seat.lt_of_mem_all (List.mem_of_find?_eq_some hseat))
  · cases hseat

/-- The active seat is known after being synchronised. -/
theorem syncActive (h : s.Seated known) (hd : ∀ seat ∈ d.order.seats, known seat) :
    (s.syncActive d).Seated known := by
  unfold State.syncActive
  split
  · rename_i seat hseat
    exact h.withActive (h.known_of_designated hd hseat)
  · exact h

/-- All seats are known when a card has ended. -/
theorem endCard (h : s.Seated known) : (s.endCard d).Seated known := by
  unfold State.endCard
  split
  · rename_i rules card _ hcard
    have hseated := h.card card (by rw [hcard]; rfl)
    have hnext : { s with order := .cardDriven card.nextCard }.Seated known :=
      h.order (fun card' hcard' => by
        cases hcard'
        exact ⟨hseated.listed, hseated.holders⟩)
    dsimp only
    split
    · unfold reveal
      split
      · exact hnext
      · exact hnext.congr rfl rfl rfl hnext.card
    · exact hnext
  · exact h

/-- All seats are known when a card has been settled. -/
theorem settleCard (h : s.Seated known) (hd : ∀ seat ∈ d.order.seats, known seat)
    (rules : CardRules) :
    (s.settleCard d rules).2.Seated known := by
  unfold State.settleCard
  split
  · exact h.endCard.syncActive hd
  · exact h.syncActive hd

/-- A move is written down. -/
theorem afterMove (h : s.Seated known) (hd : ∀ seat ∈ d.order.seats, known seat) (m : Move) :
    (s.afterMove d m).2.Seated known := by
  unfold State.afterMove
  split
  · exact (h.order (fun _ hnone => by cases hnone)).syncActive hd
  · rename_i rules card hrules hcard
    refine (h.order (fun card' hcard' => ?_)).settleCard hd rules
    cases hcard'
    have hseated := h.card card (by rw [hcard]; rfl)
    exact hseated.drops (.afterMove card rules s.active m)
      (card.seatOrder_afterMove rules s.active m)
  · exact h.syncActive hd

/-- A seat is passed over. -/
theorem skipStuckSeat (h : s.Seated known) (hd : ∀ seat ∈ d.order.seats, known seat) :
    (s.skipStuckSeat d).2.Seated known := by
  unfold State.skipStuckSeat
  split
  · exact h
  · refine (h.order (fun card' hcard' => ?_)).settleCard hd _
    rw [Tracker.card?_modifyCard] at hcard'
    obtain ⟨card, hcard, rfl⟩ := Option.map_eq_some_iff.1 hcard'
    exact (h.card card hcard).drops (.skip card s.active) (card.seatOrder_skip s.active)

/-- All seats are known when a grant has been used. -/
theorem consumeGrant (h : s.Seated known) (id : String) : (s.consumeGrant id).Seated known := by
  refine h.order (fun card' hcard' => ?_)
  rw [Tracker.card?_modifyCard] at hcard'
  obtain ⟨card, hcard, rfl⟩ := Option.map_eq_some_iff.1 hcard'
  exact (h.card card hcard).consume id

/-- The next turn begins. -/
theorem rotate (h : s.Seated known) (hd : ∀ seat ∈ d.order.seats, known seat) :
    (s.rotate d).Seated known := by
  unfold State.rotate
  refine State.Seated.syncActive ?_ hd
  split
  · refine h.withActive (h.existing _ (Nat.lt_of_le_of_lt (Nat.mod_le _ _) ?_))
    rw [Nat.max_eq_left h.populated]
    exact Nat.mod_lt _ h.populated
  · exact h.order (fun _ hnone => by cases hnone)
  · exact h.order (fun _ hnone => by cases hnone)
  · exact h

end State.Seated

end Tabletop
