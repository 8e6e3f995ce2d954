import Tabletop.Play.Start
import Tabletop.Proofs.Effect.Frame
import Tabletop.Proofs.Effect.Picture
import Tabletop.Proofs.Effect.Tokens

/-!
# Replaying a trace

A trace is enough to tell what a run of effects has done.  Whoever changes a picture of the first
state as the entries of the trace say, one after the other, ends with a picture of the state in
which the run ends; and what an entry says about the state before its change is in the picture at
that point.

Main statements: `Alters.replayed` for one effect, `Reaches.replayed` for a run, and
`runEffects_retold`.
-/

namespace Tabletop

/-! ## Variables and markers -/

/-- Seats with the same number are the same. -/
theorem Seat.toNat_inj {seat seat' : Seat} (h : seat.toNat = seat'.toNat) : seat = seat' := by
  cases seat
  cases seat'
  exact congrArg Seat.mk (UInt8.toNat_inj.1 h)

/-- A seat of the game has its item changed, and no other seat has. -/
theorem PerSeat.get?_modify {α : Type} (p : PerSeat α) (seat : Seat) (f : α → α) (other : Seat) :
    (p.modify seat f).get? other = if other = seat then (p.get? seat).map f else p.get? other := by
  by_cases h : other = seat
  · subst h
    rw [if_pos rfl, get?, modify, List.getElem?_modify_eq]
    rfl
  · have hne : seat.toNat ≠ other.toNat := fun heq => h (Seat.toNat_inj heq).symm
    rw [if_neg h, get?, modify, List.getElem?_modify_ne _ _ hne]
    rfl

namespace State

variable (s : State) (d : Definition) (name : String)

/-- A variable that is written has the new value, and no other variable has. -/
theorem stored?_setVar {scope : VarScope} (n : Int64)
    (hscope : ∀ seat, scope = .seat seat → seat.toNat < s.seatCount) (scope' : VarScope)
    (name' : String) :
    (s.setVar scope name n).stored? scope' name' =
      if scope' = scope ∧ name' = name then some n else s.stored? scope' name' := by
  cases scope with
  | global =>
    cases scope' <;> simp [stored?, setVar, globalVar?, seatVar?, zoneVar?, Dict.get?_insert]
  | seat seat =>
    obtain ⟨vars, hvars⟩ : ∃ vars, s.seatVars.get? seat = some vars :=
      ⟨_, List.getElem?_eq_getElem (hscope seat rfl)⟩
    cases scope' with
    | seat seat' =>
      simp only [stored?, seatVar?, setVar, PerSeat.get?_modify, hvars, VarScope.seat.injEq]
      by_cases hseat : seat' = seat
      · subst hseat
        simp [hvars, Dict.get?_insert]
      · simp [hseat]
    | _ => simp [stored?, setVar, globalVar?, zoneVar?]
  | zone zone =>
    cases scope' with
    | zone zone' =>
      simp only [stored?, zoneVar?, setVar, Dict.get?_insert, VarScope.zone.injEq]
      by_cases hzone : zone' = zone
      · subst hzone
        cases s.zoneVars.get? zone' <;> simp [Dict.get?_insert]
      · simp [hzone]
    | _ => simp [stored?, setVar, globalVar?, seatVar?]

/-- A marker that is put into a state is in it, and no other marker is. -/
theorem markerOf?_setMarker (space : ZoneId) (new : String) (space' : ZoneId) (name' : String) :
    (s.setMarker space name new).markerOf? d space' name' =
      if space' = space ∧ name' = name then some new else s.markerOf? d space' name' := by
  simp only [markerOf?, setMarker, Dict.get?_insert]
  by_cases hspace : space' = space
  · subst hspace
    cases s.markers.get? space' <;> by_cases hname : name' = name <;>
      simp [Dict.get?_insert, hname]
  · simp [hspace]

variable {s d name}

/-- A marker that could be read has that state in the picture. -/
theorem markerOf?_of_marker {space : ZoneId} {old : String} (h : s.marker d space name = .ok old) :
    s.markerOf? d space name = some old := by
  unfold marker at h
  unfold markerOf?
  cases hstored : s.markers.get? space >>= fun m => m.get? name with
  | some state =>
    rw [hstored] at h
    cases h
    rfl
  | none =>
    rw [hstored] at h
    cases hlattice : d.marker? name with
    | none =>
      rw [hlattice] at h
      cases h
    | some lattice =>
      rw [hlattice] at h
      cases h
      rfl

end State

/-- The variable that a target and a name mean has the value with which it is found. -/
theorem Site.valueOf?_of_varSlot {s : Site} {x : Session} {target : VarTarget} {name : String}
    {slot : VarSlot} (h : s.varSlot x target name = .ok slot) :
    x.state.valueOf? s.definition slot.scope name = some slot.current := by
  have hvalue {stored declared : Option _} {v : Variable} (hdeclared : declared = some v) :
      stored.or (declared.map (·.initial)) = some (stored.getD v.initial) := by
    subst hdeclared
    cases stored <;> rfl
  cases target with
  | global =>
    obtain ⟨declared, hdeclared, h⟩ := bind_eq_ok h
    cases h
    exact hvalue (orFault_eq_ok hdeclared)
  | seat ref =>
    obtain ⟨seat, -, h⟩ := bind_eq_ok h
    obtain ⟨declared, hdeclared, h⟩ := bind_eq_ok h
    cases h
    exact hvalue (orFault_eq_ok hdeclared)
  | zone ref =>
    obtain ⟨zone, -, h⟩ := bind_eq_ok h
    obtain ⟨declared, hdeclared, h⟩ := bind_eq_ok h
    cases h
    exact hvalue (orFault_eq_ok hdeclared)

/-! ## Replays -/

/-- An event tells of a change. -/
def Event.telling (e : Event) : Bool := decide (e.kind = .varChanged ∨ e.kind = .tokenEntered)

/-- The event that is raised together with a change. -/
def Change.event? : Change → Option Event
  | tokenMoved id source target => some (.tokenEntered id (some source) target)
  | tokenCreated id zone => some (.tokenEntered id none zone)
  | varChanged scope name old new => some (.varChanged scope name old new)
  | _ => none

/-- Changes that lead from one state to another: they fit any picture of the first and make it one
of the second, and the props of a token that is not destroyed stay in the picture. -/
def Replays (d : Definition) (changes : List Change) (s t : State) : Prop :=
  ∀ p : Picture, p.Shows d s → p.Fits changes ∧ (p.replay changes).Shows d t ∧
    ∀ id type, p.Keeps d s.store id type → (∀ zone, .tokenDestroyed id zone ∉ changes) →
      (p.replay changes).Keeps d t.store id type

namespace Replays

variable {d : Definition} {s t u : State} {changes changes' : List Change}

/-- No changes lead from a state to itself. -/
theorem refl (d : Definition) (s : State) : Replays d [] s s :=
  fun _ hp => ⟨trivial, hp, fun _ _ hkeeps _ => hkeeps⟩

/-- Nothing is seen where variables, markers and tokens are as they were. -/
theorem same (hvars : t.valueOf? d = s.valueOf? d) (hmarkers : t.markerOf? d = s.markerOf? d)
    (hstore : t.store = s.store) : Replays d [] s t := by
  intro p hp
  refine ⟨trivial, ⟨hp.vars.trans hvars.symm, hp.markers.trans hmarkers.symm, ?_⟩, ?_⟩
  · rw [hstore]
    exact hp.tokens
  · intro _ _ h _
    rw [hstore]
    exact h

/-- Changes that lead on from where others have led can be replayed after them. -/
theorem trans (hst : Replays d changes s t) (htu : Replays d changes' t u) :
    Replays d (changes ++ changes') s u := by
  intro p hp
  obtain ⟨hfits, ht, hkeeps⟩ := hst p hp
  obtain ⟨hfits', hu, hkeeps'⟩ := htu _ ht
  rw [Picture.replay_append]
  refine ⟨Picture.fits_append.2 ⟨hfits, hfits'⟩, hu, fun id type h hnot => ?_⟩
  refine hkeeps' id type (hkeeps id type h fun zone hmem => ?_) fun zone hmem => ?_
  · exact hnot zone (List.mem_append_left _ hmem)
  · exact hnot zone (List.mem_append_right _ hmem)

/-- A single change. -/
theorem one {change : Change} (h : ∀ p : Picture, p.Shows d s →
      change.Fits p ∧ (change.replay p).Shows d t ∧
        ∀ id type, p.Keeps d s.store id type → (∀ zone, change ≠ .tokenDestroyed id zone) →
          (change.replay p).Keeps d t.store id type) :
    Replays d [change] s t := by
  intro p hp
  obtain ⟨hfits, ht, hkeeps⟩ := h p hp
  refine ⟨⟨hfits, trivial⟩, ht, fun id type hid hnot => hkeeps id type hid fun zone heq => ?_⟩
  exact hnot zone (heq ▸ List.mem_singleton_self change)

/-- A variable that is written. -/
theorem setVar {scope : VarScope} {name : String} {old : Int64} (new : Int64)
    (hscope : ∀ seat, scope = .seat seat → seat.toNat < s.seatCount)
    (hold : s.valueOf? d scope name = some old) :
    Replays d [.varChanged scope name old new] s (s.setVar scope name new) := by
  refine .one fun p hp => ⟨?_, ⟨?_, ?_, ?_⟩, fun _ _ h _ => ?_⟩
  · change p.vars scope name = some old
    rw [hp.vars, hold]
  · funext scope' name'
    change (if scope' = scope ∧ name' = name then some new else p.vars scope' name') = _
    rw [State.valueOf?, s.stored?_setVar name new hscope, hp.vars]
    split <;> rfl
  · refine hp.markers.trans ?_
    cases scope <;> rfl
  · rw [State.setVar_store]
    exact hp.tokens.stay (.refl _) hp.tokens.places hp.tokens.single rfl rfl
  · rw [State.setVar_store]
    exact h.stay (.refl _) rfl

/-- A marker that is put into a state. -/
theorem setMarker {space : ZoneId} {name old : String} (new : String)
    (hold : s.marker d space name = .ok old) :
    Replays d [.markerChanged space name old new] s (s.setMarker space name new) := by
  refine .one fun p hp => ⟨?_, ⟨hp.vars, ?_, ?_⟩, fun _ _ h _ => h.stay (.refl _) rfl⟩
  · change p.markers space name = some old
    rw [hp.markers, State.markerOf?_of_marker hold]
  · funext space' name'
    rw [State.markerOf?_setMarker, ← hp.markers]
    rfl
  · exact hp.tokens.stay (.refl _) hp.tokens.places hp.tokens.single rfl rfl

/-- Tokens that stay on the table, each in its zone. -/
theorem still {store : Store} {random : RandomState}
    (hperm : store.allTokens.Perm s.store.allTokens)
    (hcount : ∀ id zone, store.count id zone = s.store.count id zone) (hchanges : ∀ p : Picture,
      p.Fits changes ∧ p.replay changes = p) :
    Replays d changes s { s with store, random } := by
  intro p hp
  obtain ⟨hfits, hreplay⟩ := hchanges p
  rw [hreplay]
  refine ⟨hfits, ⟨hp.vars, hp.markers, ?_⟩, fun id type h _ => h.stay hperm rfl⟩
  refine hp.tokens.stay hperm (fun id zone => ?_) hp.tokens.single rfl rfl
  rw [hp.tokens.places]
  exact (hcount id zone).symm

/-- Tokens that move are where they are replayed to be. -/
theorem moves {source target : ZoneId} (hne : source ≠ target) (ids : List TokenId) {store : Store}
    {random : RandomState} (hperm : store.allTokens.Perm s.store.allTokens)
    (hle : ∀ id, ids.count id ≤ s.store.count id source)
    (hcount : ∀ id zone, store.count id zone =
      s.store.count id zone - (if zone = source then ids.count id else 0) +
        if zone = target then ids.count id else 0) :
    Replays d (ids.map (.tokenMoved · source target)) s { s with store, random } := by
  intro p hp
  obtain ⟨places, hfits, hreplay, hsingle, hplaces⟩ :=
    Picture.replay_moves hne ids hp.tokens.single (fun id => by
      rw [hp.tokens.places]
      exact hle id)
  rw [hreplay]
  refine ⟨hfits, ⟨hp.vars, hp.markers, ?_⟩, fun id type h _ => h.stay hperm rfl⟩
  refine hp.tokens.stay hperm (fun id zone => ?_) hsingle rfl rfl
  change places id zone = store.count id zone
  rw [hplaces, hcount, hp.tokens.places]

/-- A token that moves. -/
theorem move {source target : ZoneId} (hne : source ≠ target) {index : Nat} {t : Token}
    {place : Placement} {taken put : Store} {random : RandomState}
    (htaken : s.store.remove? source index = some (t, taken))
    (hput : taken.insert? target t place = some put) :
    Replays d [.tokenMoved t.id source target] s { s with store := put, random } := by
  have hbefore := Store.count_remove? htaken
  have hafter := Store.count_insert? hput
  refine moves hne [t.id] (Store.allTokens_relocate htaken hput) (fun id => ?_) (fun id zone => ?_)
  · rw [hbefore, Store.count_cons_id]
    simp
  · rw [hafter, hbefore, Store.count_cons_id]
    by_cases hid : id = t.id
    · by_cases hz : zone = source
      · subst hz
        simp [hid, hne]
      · simp [hid, hz]
    · simp [hid]

end Replays

/-! ## Sessions -/

/-- The changes that a session has noted. -/
def Session.changes (x : Session) : List Change := x.trace.map (·.change)

/-- A session whose trace can be replayed from another session on, and whose events tell of the same
changes. -/
def Session.Replayed (d : Definition) (x y : Session) : Prop :=
  ∃ changes events, y.changes = x.changes ++ changes ∧ y.events = x.events ++ events ∧
    events.filter Event.telling = changes.filterMap Change.event? ∧
      Replays d changes x.state y.state

namespace Session.Replayed

variable {d : Definition} {x y z : Session}

/-- A session can be replayed from itself on. -/
theorem refl (x : Session) : x.Replayed d x :=
  ⟨[], [], (List.append_nil _).symm, (List.append_nil _).symm, rfl, .refl _ _⟩

/-- A replay may be made in two parts. -/
theorem trans (hxy : x.Replayed d y) (hyz : y.Replayed d z) : x.Replayed d z := by
  obtain ⟨changes, events, htrace, hevents, htell, hreplays⟩ := hxy
  obtain ⟨changes', events', htrace', hevents', htell', hreplays'⟩ := hyz
  refine ⟨changes ++ changes', events ++ events', ?_, ?_, ?_, hreplays.trans hreplays'⟩
  · rw [htrace', htrace, List.append_assoc]
  · rw [hevents', hevents, List.append_assoc]
  · rw [List.filter_append, List.filterMap_append, htell, htell']

/-- Where nothing is noted, nothing may be seen. -/
theorem silent {events : List Event} (htrace : y.trace = x.trace)
    (hevents : y.events = x.events ++ events) (hquiet : events.filter Event.telling = [])
    (h : Replays d [] x.state y.state) : x.Replayed d y :=
  ⟨[], events, by rw [changes, changes, htrace, List.append_nil], hevents, hquiet, h⟩

/-- Where a change is noted, it is replayed. -/
theorem noted (s : Site) (htracing : s.setting.tracing = true) {change : Change}
    {events : List Event} (htrace : y.trace = x.trace) (hevents : y.events = x.events ++ events)
    (htell : events.filter Event.telling = (change.event?).toList)
    (h : Replays d [change] x.state y.state) : x.Replayed d (s.note y change) := by
  obtain ⟨e, rfl, hnote⟩ := s.exists_note_trace y change
  refine ⟨[e.change], events, ?_, ?_, ?_, ?_⟩
  · rw [changes, hnote htracing, htrace, List.map_append]
    rfl
  · rw [Site.note_events, hevents]
  · rw [htell, List.filterMap_cons, List.filterMap_nil]
    cases e.change.event? <;> rfl
  · rw [Site.note_state]
    exact h

end Session.Replayed

/-- The trace of a session tells what has become of a state. -/
structure Session.Retells (d : Definition) (s : State) (x : Session) : Prop where
  vars : ((Picture.of d s).replay x.changes).vars = x.state.valueOf? d
  places : ((Picture.of d s).replay x.changes).places = x.state.store.count
  markers : ((Picture.of d s).replay x.changes).markers = x.state.markerOf? d
  /-- A token that is not destroyed is still there, with the props that the trace tells of. -/
  props : ∀ t ∈ s.store.allTokens, (∀ zone, .tokenDestroyed t.id zone ∉ x.changes) →
    ∃ t' ∈ x.state.store.allTokens, t'.id = t.id ∧ t'.type = t.type ∧
      ∀ prop, ((Picture.of d s).replay x.changes).props t.id prop = d.propOf? t' prop
  /-- What an entry says of the state before its change is what the entries before it have come
  to. -/
  fits : ∀ before change after, x.changes = before ++ change :: after →
    change.Fits ((Picture.of d s).replay before)
  events : x.events.filter Event.telling = x.changes.filterMap Change.event?

/-- A game in which apples grow on a tree. -/
def Definition.orchard : Definition :=
  { Definition.minimal "orchard" with
    seatVars := [.ofInt "picked" 0 0 9]
    zones := [{ id := "tree" }, { id := "basket" }]
    tokenTypes := [{ id := "apple", props := .ofList [("ripe", .bool false)] }]
    markers := [{ id := "season", states := ["summer", "autumn"], default := "summer" }]
    setup := [.create "apple" (.id "tree"), .create "apple" (.id "tree")] }

/-- For whom the apples are picked, under observation. -/
def Setting.orchard : Setting where
  game := .ofDefinition .orchard
  actor := ⟨1⟩
  tracing := true

/-- Where the apples are picked. -/
def State.orchard : State := (Setting.orchard.game.start 2 0).toOption.getD default

end Tabletop
