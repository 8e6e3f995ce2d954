import Tabletop.Proofs.Board.Contents
import Tabletop.Proofs.Effect.Variables
import Tabletop.Proofs.Play.Interrupts
import Tabletop.Proofs.Play.Reached
import Tabletop.Proofs.Play.Table

/-!
# What a state holds is what is declared

A state is plain data, and nothing checks it.  Yet conditions and effects look things up in it: the
value of a declared variable, the tokens of a declared zone, the props of a token by its type.  They
rely on finding them, and on finding values that the declarations admit.

What is written is checked against a declaration at the moment of writing, and the declaration is
found by its name: the first one counts.  So a second declaration of the same name would not be kept
to.  Where all names of a table of the definition differ, what a state holds is what is declared, at
any time.

Main statement: `Game.conforms_of_played`, with a fair that has a table of every kind.
-/

namespace Tabletop

/-! ## Variables -/

namespace Variable

variable {v : Variable} {declared vars : List Variable} {value? other? : String → Option Int64}
  {x : Int64}

/-- A value is within the bounds of a variable; that of a boolean is zero or one. -/
structure Admits (v : Variable) (x : Int64) : Prop where
  lower : v.lower ≤ x
  upper : x ≤ v.upper
  bool : v.kind = .bool → x = 0 ∨ x = 1

/-- A value between the bounds of a variable is admitted; the bounds of a boolean are zero and
one. -/
theorem admits_of_bounds (hlower : v.lower ≤ x) (hupper : x ≤ v.upper) : v.Admits x := by
  refine ⟨hlower, hupper, fun hkind => ?_⟩
  have hzero : (0 : Int64) ≤ x := by simpa [lower, hkind] using hlower
  have hone : x ≤ (1 : Int64) := by simpa [upper, hkind] using hupper
  rw [Int64.le_iff_toInt_le] at hzero hone
  rw [← Int64.toInt_inj, ← Int64.toInt_inj (y := 1)]
  change 0 ≤ x.toInt at hzero
  change x.toInt ≤ 1 at hone
  change x.toInt = 0 ∨ x.toInt = 1
  omega

/-- A value that has been clamped is admitted. -/
theorem admits_clamp (v : Variable) (n : Int) : v.Admits (v.clamp n) := by
  have hbounds : v.lower.toInt ≤ v.upper.toInt := Int64.le_iff_toInt_le.1 v.lower_le_upper
  refine admits_of_bounds ?_ ?_ <;> rw [Int64.le_iff_toInt_le, toInt_clamp] <;> omega

/-- Every declared variable has a value that it admits, and nothing else has a value. -/
structure Fit (declared : List Variable) (value? : String → Option Int64) : Prop where
  present : ∀ v ∈ declared, ∃ x, value? v.name = some x ∧ v.Admits x
  declared : ∀ name x, value? name = some x → ∃ v ∈ declared, v.name = name

namespace Fit

/-- The initial values of variables fit. -/
theorem initials (hnames : (vars.map (·.name)).Nodup) :
    Fit vars (fun name => (Variable.initials vars).get? name) where
  present v hv := by
    refine ⟨v.initial, ?_, v.admits_clamp _⟩
    refine (Dict.get?_ofList ?_).2 (List.mem_map_of_mem hv)
    rw [List.map_map]
    exact hnames
  declared name x h := by
    obtain ⟨v, hv, heq⟩ := List.mem_map.1 (Dict.mem_of_get?_ofList h)
    exact ⟨v, hv, (Prod.mk.inj heq).1⟩

/-- A value that is written is one of the variable that is found first, so it fits. -/
theorem write (hnames : (declared.map (·.name)).Nodup) (h : Fit declared value?) {name : String}
    (hfound : declared.find? (·.name == name) = some v) (hx : v.Admits x)
    (hself : other? name = some x) (hother : ∀ name', name' ≠ name → other? name' = value? name') :
    Fit declared other? := by
  have hv := List.mem_of_find?_eq_some hfound
  have hname : v.name = name := by simpa using List.find?_some hfound
  constructor
  · intro v' hv'
    by_cases hsame : v'.name = name
    · obtain rfl := List.inj_on_of_nodup_map hnames hv' hv (hsame.trans hname.symm)
      exact ⟨x, hsame ▸ hself, hx⟩
    · obtain ⟨y, hy, hadmits⟩ := h.present v' hv'
      exact ⟨y, (hother _ hsame).trans hy, hadmits⟩
  · intro name' y hy
    by_cases hsame : name' = name
    · exact ⟨v, hv, hname.trans hsame.symm⟩
    · rw [hother _ hsame] at hy
      exact h.declared name' y hy

end Fit

end Variable

/-! ## Definitions -/

namespace Definition

/-- No name is declared twice in a table of the definition. -/
structure Distinct (d : Definition) : Prop where
  globalVars : (d.globalVars.map (·.name)).Nodup
  seatVars : (d.seatVars.map (·.name)).Nodup
  zoneVars : (d.zoneVars.map (·.name)).Nodup
  zones : (d.zones.map (·.id)).Nodup
  tokenTypes : (d.tokenTypes.map (·.id)).Nodup
  markers : (d.markers.map (·.id)).Nodup

/-- The type of a token is declared, and it has the props of that type. -/
def Types (d : Definition) (t : Token) : Prop :=
  ∃ type ∈ d.tokenTypes, type.id = t.type ∧ t.props.keys = type.props.keys

/-- A marker of that name is declared, and the state is one of its states or its default. -/
def Marks (d : Definition) (name state : String) : Prop :=
  ∃ lattice ∈ d.markers, lattice.id = name ∧ (lattice.has state = true ∨ state = lattice.default)

/-- A token is still typed if a prop is changed that its type has. -/
theorem Types.setProp {d : Definition} {t : Token} {type : TokenType} {prop : String}
    (hd : d.Distinct) (h : d.Types t) (htype : d.tokenType? t.type = some type)
    (hprop : (type.props.get? prop).isSome = true) (x : Scalar) :
    d.Types { t with props := t.props.insert prop x } := by
  obtain ⟨type', hmem', hid', hkeys⟩ := h
  have hid : type.id = t.type := by simpa using List.find?_some htype
  obtain rfl := List.inj_on_of_nodup_map hd.tokenTypes hmem' (List.mem_of_find?_eq_some htype)
    (hid'.trans hid.symm)
  have hmem : prop ∈ t.props.keys := by
    rw [hkeys]
    exact Dict.mem_keys_iff.2 hprop
  exact ⟨type', hmem', hid', (Dict.keys_insert hmem x).trans hkeys⟩

end Definition

/-! ## Tables -/

namespace State

/-- The table holds what is declared. -/
structure TableConforms (s : State) (d : Definition) : Prop where
  globals : Variable.Fit d.globalVars s.globalVar?
  seats : ∀ seat : Seat, seat.toNat < s.seatCount → Variable.Fit d.seatVars (s.seatVar? seat)
  zoneVars : ∀ z ∈ d.zones, Variable.Fit d.zoneVars (s.zoneVar? z.id)
  zoneKeys : ∀ zone, s.zoneVars.contains zone = true → ∃ z ∈ d.zones, z.id = zone
  zones : ∀ zone, s.store.hasZone zone = true ↔ ∃ z ∈ d.zones, z.id = zone
  tokens : ∀ t ∈ s.store.allTokens, d.Types t
  markers : ∀ space markers name state, s.markers.get? space = some markers →
    markers.get? name = some state → d.Marks name state

variable {s t : State} {d : Definition} {name : String} {x : Int64} {v : Variable}

namespace TableConforms

/-- States with the same table conform alike. -/
theorem congr (h : s.TableConforms d) (hsame : s.SameTable t) : t.TableConforms d where
  globals := by
    unfold globalVar?
    rw [hsame.globalVars]
    exact h.globals
  seats := by
    unfold seatVar?
    rw [hsame.seatVars, hsame.seatCount]
    exact h.seats
  zoneVars := by
    unfold zoneVar?
    rw [hsame.zoneVars]
    exact h.zoneVars
  zoneKeys := hsame.zoneVars ▸ h.zoneKeys
  zones := hsame.store ▸ h.zones
  tokens := hsame.store ▸ h.tokens
  markers := hsame.markers ▸ h.markers

/-- A table conforms after a variable of the game has been given a value that it admits. -/
theorem setGlobal (hd : d.Distinct) (h : s.TableConforms d) (hv : d.globalVar? name = some v)
    (hx : v.Admits x) : (s.setVar .global name x).TableConforms d :=
  { h with
    globals := by
      refine h.globals.write hd.globalVars hv hx ?_ (fun name' hne => ?_)
      · exact Dict.get?_insert_self _ _ _
      · exact Dict.get?_insert_ne _ _ hne }

/-- A table conforms after a variable of a seat has been given a value that it admits. -/
theorem setSeat (hd : d.Distinct) (h : s.TableConforms d) (seat : Seat)
    (hv : d.seatVar? name = some v) (hx : v.Admits x) :
    (s.setVar (.seat seat) name x).TableConforms d :=
  { h with
    seats := by
      intro seat' hseat'
      have hcount : (s.setVar (.seat seat) name x).seatCount = s.seatCount :=
        (Kept.setVar s (.seat seat) name x).seatCount
      rw [hcount] at hseat'
      have hfit := h.seats seat' hseat'
      have hvars : (s.setVar (.seat seat) name x).seatVars.get? seat' =
          (s.seatVars.get? seat').map
            (fun vars => if seat.toNat = seat'.toNat then vars.insert name x else vars) :=
        List.getElem?_modify _ _ _ _
      obtain ⟨vars, hold⟩ : ∃ vars, s.seatVars.get? seat' = some vars :=
        ⟨_, List.getElem?_eq_getElem hseat'⟩
      rw [hold] at hvars
      by_cases hsame : seat.toNat = seat'.toNat
      · simp only [Option.map_some, hsame, if_true] at hvars
        refine hfit.write hd.seatVars hv hx ?_ (fun name' hne => ?_)
        · simp [seatVar?, hvars]
        · simp [seatVar?, hvars, hold, Dict.get?_insert_ne _ _ hne]
      · simp only [Option.map_some, hsame, if_false] at hvars
        have hvar : (s.setVar (.seat seat) name x).seatVar? seat' = s.seatVar? seat' := by
          funext name'
          simp [seatVar?, hvars, hold]
        rw [hvar]
        exact hfit }

/-- A variable of a zone is written only if the zone is there. -/
theorem setZone (hd : d.Distinct) (h : s.TableConforms d) {zone : ZoneId}
    (hzone : s.store.hasZone zone = true) (hv : d.zoneVar? name = some v) (hx : v.Admits x) :
    (s.setVar (.zone zone) name x).TableConforms d :=
  { h with
    zoneVars := by
      intro z hz
      by_cases hsame : z.id = zone
      · subst hsame
        refine (h.zoneVars z hz).write hd.zoneVars hv hx ?_ (fun name' hne => ?_)
        · simp [zoneVar?, setVar]
        · simp only [zoneVar?, setVar, Dict.get?_insert_self, Option.bind_eq_bind, Option.bind_some,
            Dict.get?_insert_ne _ _ hne]
          cases s.zoneVars.get? z.id with
          | none => rfl
          | some vars => rfl
      · have hvar : (s.setVar (.zone zone) name x).zoneVar? z.id = s.zoneVar? z.id := by
          funext name'
          simp [zoneVar?, setVar, Dict.get?_insert_ne _ _ hsame]
        rw [hvar]
        exact h.zoneVars z hz
    zoneKeys := by
      intro zone' hzone'
      by_cases hsame : zone' = zone
      · exact (h.zones zone').1 (hsame ▸ hzone)
      · refine h.zoneKeys zone' ?_
        simpa [setVar, Dict.contains, Dict.get?_insert_ne _ _ hsame] using hzone' }

/-- A table conforms after a marker has been given a state that it may have. -/
theorem setMarker (h : s.TableConforms d) {space : ZoneId} {name state : String}
    (hmarks : d.Marks name state) : (s.setMarker space name state).TableConforms d :=
  { h with
    markers := by
      intro space' markers name' state' hmarkers hstate
      by_cases hspace : space' = space
      · subst hspace
        rw [State.setMarker, Dict.get?_insert_self] at hmarkers
        obtain rfl := Option.some.inj hmarkers
        by_cases hname : name' = name
        · subst hname
          rw [Dict.get?_insert_self] at hstate
          obtain rfl := Option.some.inj hstate
          exact hmarks
        · rw [Dict.get?_insert_ne _ _ hname] at hstate
          cases hold : s.markers.get? space' with
          | none =>
            rw [hold] at hstate
            cases hstate
          | some old =>
            rw [hold] at hstate
            exact h.markers space' old name' state' hold hstate
      · rw [State.setMarker, Dict.get?_insert_ne _ _ hspace] at hmarkers
        exact h.markers space' markers name' state' hmarkers hstate }

/-- Tokens may come, go and change, as long as no zone does and all tokens are typed. -/
theorem restock (h : s.TableConforms d) (hsame : { s with store := t.store }.SameTable t)
    (hzones : ∀ zone, t.store.hasZone zone = s.store.hasZone zone)
    (htokens : ∀ token ∈ t.store.allTokens, token ∈ s.store.allTokens ∨ d.Types token) :
    t.TableConforms d := by
  have hrestocked : { s with store := t.store }.TableConforms d :=
    { h with
      zones := fun zone => by rw [hzones]; exact h.zones zone
      tokens := fun token htoken => (htokens token htoken).elim (h.tokens token) id }
  exact hrestocked.congr hsame

end TableConforms

end State

/-! ## Effects -/

/-- The props of a new token are those of its type. -/
theorem Site.keys_newProps {here : Site} {x : Session} {type : TokenType} :
    ∀ {given : List (String × Expr)} {props new : Dict Scalar},
      here.newProps x type given props = .ok new → props.keys = type.props.keys →
        new.keys = type.props.keys
  | [], props, new, h, hkeys => by
    cases h
    exact hkeys
  | (name, value) :: given, props, new, h, hkeys => by
    unfold newProps at h
    split at h
    · rename_i hprop
      obtain ⟨value, -, h⟩ := bind_eq_ok h
      obtain ⟨scalar, -, h⟩ := bind_eq_ok h
      refine keys_newProps h ?_
      rw [Dict.keys_insert (by rw [hkeys]; exact Dict.mem_keys_iff.2 hprop), hkeys]
    · cases h

/-- What a slot says about a variable that is written. -/
theorem Site.varSlot_eq_ok {here : Site} {x : Session} {target : VarTarget} {name : String}
    {slot : VarSlot} (h : here.varSlot x target name = .ok slot) :
    slot.scope = .global ∧ here.definition.globalVar? name = some slot.declared ∨
      (∃ seat, slot.scope = .seat seat ∧ here.definition.seatVar? name = some slot.declared) ∨
      ∃ zone, slot.scope = .zone zone ∧ x.state.store.hasZone zone = true ∧
        here.definition.zoneVar? name = some slot.declared := by
  cases target with
  | global =>
    obtain ⟨declared, hdeclared, h⟩ := bind_eq_ok h
    cases h
    exact .inl ⟨rfl, orFault_eq_ok hdeclared⟩
  | seat seat =>
    obtain ⟨seat, -, h⟩ := bind_eq_ok h
    obtain ⟨declared, hdeclared, h⟩ := bind_eq_ok h
    cases h
    exact .inr (.inl ⟨seat, rfl, orFault_eq_ok hdeclared⟩)
  | zone zone =>
    obtain ⟨zone, hzone, h⟩ := bind_eq_ok h
    obtain ⟨declared, hdeclared, h⟩ := bind_eq_ok h
    cases h
    exact .inr (.inr ⟨zone, rfl, ZoneRef.hasZone_of_resolve hzone, orFault_eq_ok hdeclared⟩)

/-- Effects keep to the declarations. -/
theorem Alters.tableConforms {setting : Setting} {x y : Session} (h : Alters setting x y)
    (hd : setting.game.definition.Distinct)
    (hx : x.state.TableConforms setting.game.definition) :
    y.state.TableConforms setting.game.definition := by
  cases h with
  | @storeVar here x target name slot hslot n =>
    unfold Site.storeVar
    split
    · exact hx
    · rw [Site.note_state]
      have hadmits := slot.declared.admits_clamp n
      obtain ⟨hscope, hv⟩ | ⟨seat, hscope, hv⟩ | ⟨zone, hscope, hzone, hv⟩ :=
        Site.varSlot_eq_ok hslot
      · rw [hscope]
        exact hx.setGlobal hd hv hadmits
      · rw [hscope]
        exact hx.setSeat hd seat hv hadmits
      · rw [hscope]
        exact hx.setZone hd hzone hv hadmits
  | setMarker hspace hlattice hnew =>
    rw [Site.note_state]
    have hid := List.find?_some hlattice
    exact hx.setMarker ⟨_, List.mem_of_find?_eq_some hlattice, by simpa using hid, .inl hnew⟩
  | moveWithin hlocated htaken hplace hput =>
    obtain ⟨hzones, htokens⟩ := Store.frame_relocate htaken hput
    exact hx.restock ⟨rfl, rfl, rfl, rfl, rfl⟩ hzones (fun token hmem => .inl (htokens token hmem))
  | moveAcross hne hlocated htaken hplace hput =>
    unfold Site.arrive
    rw [Site.note_state]
    obtain ⟨hzones, htokens⟩ := Store.frame_relocate htaken hput
    exact hx.restock ⟨rfl, rfl, rfl, rfl, rfl⟩ hzones (fun token hmem => .inl (htokens token hmem))
  | @moveBlock here x source target block rest old tokens hne hblock hparts _ hold htokens =>
    rw [Site.arriveAll_state]
    have hfrom : ∀ token ∈ tokens, token ∈ old ∨ token ∈ block := by
      intro token hmem
      rw [htokens] at hmem
      split at hmem
      · exact List.mem_append.1 hmem
      · exact (List.mem_append.1 hmem).symm
    obtain ⟨hzones, htokens⟩ := Store.frame_moveBlock hblock hparts hold hfrom
    exact hx.restock ⟨rfl, rfl, rfl, rfl, rfl⟩ hzones (fun token hmem => .inl (htokens token hmem))
  | shuffle hmany hshuffled =>
    rw [Site.note_state]
    obtain ⟨hzones, htokens⟩ := Store.frame_shuffle hmany (RandomState.perm_of_shuffle hshuffled)
    exact hx.restock ⟨rfl, rfl, rfl, rfl, rfl⟩ hzones (fun token hmem => .inl (htokens token hmem))
  | @createToken here x name type zone given props store htype hprops hput =>
    rw [Site.note_state]
    obtain ⟨hzones, htokens⟩ := Store.frame_insert? hput
    refine hx.restock ⟨rfl, rfl, rfl, rfl, rfl⟩ hzones (fun token htoken => ?_)
    rcases htokens token htoken with rfl | hmem
    · exact .inr ⟨type, List.mem_of_find?_eq_some htype, rfl, Site.keys_newProps hprops rfl⟩
    · exact .inl hmem
  | destroyToken hlocated hid htaken =>
    rw [Site.note_state]
    obtain ⟨hzones, -, htokens⟩ := Store.frame_remove? htaken
    exact hx.restock ⟨rfl, rfl, rfl, rfl, rfl⟩ hzones (fun token hmem => .inl (htokens token hmem))
  | @setTokenProp here x id zone index token type prop initial new hlocated hfound htype hinitial =>
    rw [Site.note_state]
    refine hx.restock ⟨rfl, rfl, rfl, rfl, rfl⟩ (Store.hasZone_modify_eq _ _ _) ?_
    intro token' hmem
    rcases Store.mem_allTokens_modify hmem with hmem | ⟨first, hfirst, rfl⟩
    · exact .inl hmem
    · obtain rfl : token = first := Option.some.inj (hfound.symm.trans hfirst)
      have htyped := hx.tokens token (List.mem_of_find?_eq_some hfound)
      exact .inr (htyped.setProp hd htype (Option.isSome_of_eq_some hinitial) new)
  | roll => exact hx.congr ⟨rfl, rfl, rfl, rfl, rfl⟩
  | grant => exact hx.congr ⟨rfl, rfl, rfl, rfl, rfl⟩
  | override => exact hx.congr ⟨rfl, rfl, rfl, rfl, rfl⟩
  | interrupt => exact hx.congr ⟨rfl, rfl, rfl, rfl, rfl⟩

/-! ## The table of a game -/

namespace Definition

variable {d : Definition}

/-- At the start of a game the variables of each declared zone fit. -/
theorem fit_initialZoneVars (hd : d.Distinct) {z : Zone} (hz : z ∈ d.zones) :
    Variable.Fit d.zoneVars
      (fun name => d.initialZoneVars.get? z.id >>= fun vars => vars.get? name) := by
  unfold initialZoneVars
  split
  · rename_i hnone
    rw [List.isEmpty_iff.1 hnone]
    exact ⟨nofun, nofun⟩
  · have hvars :
        (Dict.ofList (d.zones.map fun z => (z.id, Variable.initials d.zoneVars))).get? z.id =
          some (Variable.initials d.zoneVars) := by
      refine (Dict.get?_ofList ?_).2 (List.mem_map_of_mem (f := fun z : Zone => (z.id, _)) hz)
      rw [List.map_map]
      exact hd.zones
    rw [hvars]
    exact .initials hd.zoneVars

/-- Only declared zones start with variables. -/
theorem declared_of_initialZoneVars {zone : ZoneId} (h : d.initialZoneVars.contains zone = true) :
    ∃ z ∈ d.zones, z.id = zone := by
  unfold initialZoneVars at h
  split at h
  · cases h
  · obtain ⟨vars, hvars⟩ := Option.isSome_iff_exists.1 h
    obtain ⟨z, hz, heq⟩ := List.mem_map.1 (Dict.mem_of_get?_ofList hvars)
    exact ⟨z, hz, (Prod.mk.inj heq).1⟩

/-- At the start of a game each marker is in its default state. -/
theorem marks_of_initialMarkers {space name state : String} {markers : Dict String}
    (hmarkers : d.initialMarkers.get? space = some markers)
    (hstate : markers.get? name = some state) :
    d.Marks name state := by
  unfold initialMarkers at hmarkers
  split at hmarkers
  · cases hmarkers
  · obtain ⟨_, _, hdefaults⟩ := List.mem_map.1 (Dict.mem_of_get?_ofList hmarkers)
    obtain rfl := (Prod.mk.inj hdefaults).2
    obtain ⟨lattice, hlattice, heq⟩ := List.mem_map.1 (Dict.mem_of_get?_ofList hstate)
    obtain ⟨rfl, rfl⟩ := Prod.mk.inj heq
    exact ⟨lattice, hlattice, rfl, .inr rfl⟩

end Definition

namespace State

variable {s t : State} {d : Definition}

/-- Revealing a card neither makes a zone come or go nor brings a token. -/
theorem TableConforms.reveal (h : s.TableConforms d) (source target : ZoneId) :
    (s.reveal source target).TableConforms d := by
  unfold State.reveal
  split
  · exact h
  · rename_i token tokens taken htaken
    obtain ⟨hzones, hfront, htokens⟩ := Store.frame_takeFront htaken
    cases hput : taken.insert? target token .front with
    | none =>
      exact h.restock ⟨rfl, rfl, rfl, rfl, rfl⟩ hzones (fun t ht => .inl (htokens t ht))
    | some put =>
      obtain ⟨hzones', htokens'⟩ := Store.frame_insert? hput
      refine h.restock ⟨rfl, rfl, rfl, rfl, rfl⟩ (fun zone => (hzones' zone).trans (hzones zone)) ?_
      intro t ht
      rcases htokens' t ht with rfl | ht
      · exact .inl (hfront _ List.mem_cons_self)
      · exact .inl (htokens t ht)

/-- A table conforms after the end of a card, whatever token is revealed or lost. -/
theorem TableConforms.endCard (h : s.TableConforms d) : (s.endCard d).TableConforms d := by
  unfold State.endCard
  split
  · dsimp only
    split
    · exact TableConforms.reveal (h.congr (.order s _)) _ _
    · exact h.congr (.order s _)
  · exact h

/-- Each seat of a blank state has its variables at their initial values. -/
theorem IsBlank.seatVar? {count : Nat} (h : s.IsBlank d count) {seat : Seat}
    (hseat : seat.toNat < s.seatCount) :
    s.seatVar? seat = fun name => (Variable.initials d.seatVars).get? name := by
  have hvars : s.seatVars.get? seat = some (Variable.initials d.seatVars) := by
    have hlength : seat.toNat < s.seatVars.data.length := hseat
    rw [h.seatVars] at hlength ⊢
    rw [PerSeat.get?, List.getElem?_eq_getElem hlength]
    simp [PerSeat.replicate, PerSeat.ofFn]
  funext name
  simp [State.seatVar?, hvars]

/-- The table of a blank state holds what is declared. -/
theorem TableConforms.of_blank {count : Nat} {seed : UInt64} (hd : d.Distinct)
    (h : d.blank count seed = .ok s) : s.TableConforms d := by
  have hblank := isBlank h
  constructor
  · unfold globalVar?
    rw [hblank.globalVars]
    exact .initials hd.globalVars
  · intro seat hseat
    rw [hblank.seatVar? hseat]
    exact .initials hd.seatVars
  · intro z hz
    unfold zoneVar?
    rw [hblank.zoneVars]
    exact Definition.fit_initialZoneVars hd hz
  · intro zone hzone
    rw [hblank.zoneVars] at hzone
    exact Definition.declared_of_initialZoneVars hzone
  · intro zone
    rw [hblank.store, Store.hasZone_foldl_addZone_iff]
    exact ⟨fun h => h.resolve_left nofun, .inr⟩
  · have hkinds : s.store.kinds = 0 := by
      rw [hblank.store]
      exact Store.kinds_foldl_addZone d.zones .empty
    have hnone : s.store.allTokens = [] := List.map_eq_nil_iff.1 ((Multiset.coe_eq_zero _).1 hkinds)
    rw [hnone]
    exact nofun
  · intro space markers name state hmarkers hstate
    rw [hblank.markers] at hmarkers
    exact Definition.marks_of_initialMarkers hmarkers hstate

end State

/-- In every state of a game the table holds what is declared. -/
theorem Game.tableConforms_of_played {g : Game} {moves : List Move} {s : State}
    (hd : g.definition.Distinct) (h : g.Played moves s) : s.TableConforms g.definition := by
  refine h.of_changes (P := fun s => s.TableConforms g.definition) (.of_blank hd) ?_
  intro s t hchanges hs
  cases hchanges with
  | touch htouches =>
    cases htouches with
    | alter hgame halters =>
      subst hgame
      exact halters.tableConforms hd hs
    | course hsame => exact hs.congr hsame
  | endCard => exact hs.endCard

/-! ## The phases of a game -/

/-- Every phase that is under way is declared. -/
def State.InPhases (s : State) (t : TurnStructure) : Prop := ∀ phase ∈ s.line, t.has phase = true

namespace TurnStructure

variable {t : TurnStructure} {phase : PhaseId}

/-- A phase that has a place in the turn is declared. -/
theorem has_of_index? (h : (t.index? phase).isSome = true) : t.has phase = true := by
  rw [has, h, Bool.true_or]

/-- A phase that may interrupt is declared. -/
theorem has_of_isInterrupt (h : t.isInterrupt phase = true) : t.has phase = true := by
  rw [has, h, Bool.or_true]

end TurnStructure

namespace State

variable {s s' : State} {t : TurnStructure} {d : Definition}

/-- Interrupts of phases that are under way leave only declared phases under way. -/
theorem Interrupted.inPhases {pushed : List PhaseId} (h : Interrupted t pushed s s')
    (hs : s.InPhases t) : s'.InPhases t := by
  intro phase hphase
  rw [h.line] at hphase
  rcases List.mem_append.1 hphase with hphase | hphase
  · exact hs phase hphase
  · exact TurnStructure.has_of_isInterrupt (h.declared phase hphase)

/-- In the next turn only declared phases are under way. -/
theorem NextTurn.inPhases (h : s.NextTurn d s') : s'.InPhases d.turn := by
  obtain ⟨first, pushed, hfirst, hline, hpushed⟩ := h.line
  intro phase hphase
  rw [hline] at hphase
  rcases List.mem_cons.1 hphase with rfl | hphase
  · exact TurnStructure.has_of_index? (Definition.isSome_index?_first hfirst)
  · exact TurnStructure.has_of_isInterrupt (hpushed phase hphase)

end State

namespace Rules

variable {r : Rules} {s : State} {m : Move} {p q : Progress}

/-- A transition leaves only declared phases under way. -/
theorem inPhases_of_transition (hp : p.state.InPhases r.definition.turn)
    (h : r.transition p = .ok q) : q.state.InPhases r.definition.turn := by
  cases shift_of_transition h with
  | @resume phase p' pushed hlast _ hpushed hsuspended hphase =>
    intro other hother
    rw [State.line, hsuspended, hphase] at hother
    rcases List.mem_append.1 hother with hother | hother
    · refine hpushed.inPhases hp other ?_
      exact List.mem_append_left _ (List.dropLast_subset _ hother)
    · rw [List.mem_singleton.1 hother]
      exact hp phase (List.mem_append_left _ (List.mem_of_getLast? hlast))
  | pass _ _ hsame => exact hsame.interrupted.inPhases hp
  | passAll _ _ hnext => exact hnext.inPhases
  | @enter phase p' pushed more _ _ _ hpushed hafter hline hmore =>
    intro other hother
    rw [hline] at hother
    rcases List.mem_append.1 hother with hother | hother
    · exact hpushed.inPhases hp other (List.mem_append_left _ hother)
    · rcases List.mem_cons.1 hother with rfl | hother
      · exact TurnStructure.has_of_index? (TurnStructure.isSome_index?_of_after? hafter).2
      · exact TurnStructure.has_of_isInterrupt (hmore other hother)
  | close _ _ _ _ _ hnext => exact hnext.inPhases

/-- A move leaves only declared phases under way. -/
theorem inPhases_of_comesTo (hs : s.InPhases r.definition.turn) (h : r.ComesTo s m q) :
    q.state.InPhases r.definition.turn := by
  obtain ⟨x, p, p', k, hx, hcarried, hout, hpasses⟩ := h
  refine hpasses.invariant (P := fun s => s.InPhases r.definition.turn)
    (fun htransition hp => inPhases_of_transition hp htransition) ?_
  rcases hout.phases hx hcarried with ⟨pushed, hpushed⟩ | hnext
  · exact hpushed.inPhases hs
  · exact hnext.inPhases

end Rules

/-- A state holds what is declared: its table does, and the phases that are under way are
declared. -/
structure State.Conforms (s : State) (d : Definition) : Prop extends s.TableConforms d where
  phases : s.InPhases d.turn

namespace Game

variable {g : Game} {moves : List Move} {s : State}

/-- A game starts with declared phases only. -/
theorem inPhases_of_start {count : Nat} {seed : UInt64} (h : g.start count seed = .ok s) :
    s.InPhases g.definition.turn := by
  obtain ⟨blank, hblank, hstart⟩ := start_eq_ok h
  obtain ⟨first, hfirst, hline⟩ := (State.isBlank hblank).line
  have hdeclared : blank.InPhases g.definition.turn := by
    intro phase hphase
    rw [hline] at hphase
    rw [List.mem_singleton.1 hphase]
    exact TurnStructure.has_of_index? (Definition.isSome_index?_first hfirst)
  rcases hstart with ⟨rfl, -⟩ | ⟨x, hreaches, rfl⟩
  · exact hdeclared
  · obtain ⟨pushed, hpushed⟩ := hreaches.interrupted
    have hsynced := (State.SameMoment.syncActive x.state g.definition).trans (.stamp _)
    exact hsynced.interrupted.inPhases (hpushed.inPhases hdeclared)

/-- In every state of a game only declared phases are under way. -/
theorem inPhases_of_played (h : g.Played moves s) : s.InPhases g.definition.turn := by
  induction h with
  | start h => exact inPhases_of_start h
  | move _ hgame hmove ih =>
    subst hgame
    obtain ⟨q, hcomes, -, hres⟩ := Rules.comesTo_of_makeMove hmove
    have hstamp := State.SameMoment.stamp q.state
    rw [hres]
    exact hstamp.interrupted.inPhases (Rules.inPhases_of_comesTo ih hcomes)

/-- Suppose that no name is declared twice.  In every state of a game each declared variable has a
value that it admits, and nothing else has one; the zones are the declared ones; each token has the
props of its type, which is declared; each marker is in one of its states or its default; and the
phases under way are declared. -/
theorem conforms_of_played (hd : g.definition.Distinct) (h : g.Played moves s) :
    s.Conforms g.definition :=
  ⟨tableConforms_of_played hd h, inPhases_of_played h⟩

end Game

/-! ## A fair -/

/-- A game with a table of every kind, in which a trade writes to each of them. -/
def Definition.fair : Definition :=
  { Definition.minimal "fair" with
    globalVars := [.ofInt "crowd" 0 0 9, .ofBool "open" false]
    seatVars := [.ofInt "purse" 3 0 9]
    zoneVars := [.ofInt "trades" 0 0 9]
    zones := [{ id := "stall" }]
    tokenTypes := [{ id := "coin", props := .ofList [("face", .int 1)] }]
    markers := [{ id := "weather", states := ["sun", "rain"], default := "sun" }]
    map := some { spaces := [{ id := "stall" }] }
    turn := { phases := [⟨"main"⟩], interrupts := [⟨"haggle"⟩] }
    actions := [{
      id := "trade"
      effects := [
        .addGlobal "crowd" 20,
        .addSeat .active "purse" (.int (-5)),
        .addVar (.zone (.id "stall")) "trades" (.int 1),
        .createToken "coin" (.id "stall") (.ofList [("face", .int 2)]),
        .setMarker (.id "stall") "weather" (.str "rain"),
        .pushInterruptPhase "haggle"] }] }

/-- The rules of that game, under the usual limits. -/
def Rules.fair : Rules := { game := .ofDefinition .fair }

/-- Where two seats start that game. -/
def State.fair : State := (Rules.fair.game.start 2 0).toOption.getD default

/-- A trade takes the crowd beyond its bounds and the purse below its own, and they stay within
them. -/
theorem Game.conforms_of_played_fair :
    Rules.fair.game.definition.Distinct ∧
      ∃ res, Rules.fair.makeMove .fair (.named "trade") = .ok res ∧
        res.state.globalVar? "crowd" = some 9 ∧ res.state.seatVar? ⟨0⟩ "purse" = some 0 ∧
        res.state.suspended = ["main"] ∧ res.state.store.size "stall" = 1 ∧
        res.state.Conforms Rules.fair.game.definition := by
  have hdistinct : Rules.fair.game.definition.Distinct :=
    ⟨by decide, by decide, by decide, by decide, by decide, by decide⟩
  obtain ⟨res, hres⟩ : ∃ res, Rules.fair.makeMove .fair (.named "trade") = .ok res :=
    exists_ok_of_isOk (by decide +kernel)
  have hstart : Rules.fair.game.start 2 0 = .ok .fair := eq_ok_getD (by decide +kernel)
  have hplayed : Rules.fair.game.Played [.named "trade"] res.state := .move (.start hstart) rfl hres
  have hafter : (Rules.fair.makeMove .fair (.named "trade")).toOption.map (fun res =>
      (res.state.globalVar? "crowd", res.state.seatVar? ⟨0⟩ "purse", res.state.suspended,
        res.state.store.size "stall")) = some (some 9, some 0, ["main"], 1) := by decide +kernel
  rw [hres] at hafter
  obtain ⟨hcrowd, hrest⟩ := Prod.ext_iff.1 (Option.some.inj hafter)
  obtain ⟨hpurse, hrest⟩ := Prod.ext_iff.1 hrest
  obtain ⟨hsuspended, hstall⟩ := Prod.ext_iff.1 hrest
  exact ⟨hdistinct, res, hres, hcrowd, hpurse, hsuspended, hstall,
    Game.conforms_of_played hdistinct hplayed⟩

end Tabletop
