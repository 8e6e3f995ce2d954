import Mathlib.Logic.Relation
import Tabletop.Effect.Run
import Tabletop.Proofs.Board.Store
import Tabletop.Proofs.Paired.Basic

/-!
# What single effects do to a session

There are many effects and few ways in which they change a session.  `Alters` lists these ways, each
with what has been checked before; an effect that is carried out makes one of them, or several one
after the other, or none.  Whatever is to be shown of all runs of effects is shown of these.

An effect that changes something asks for nothing, so it never stops for a selection: it is
`Settled`.

Main statements: `Alters.altered`, that an alteration respects what a setting vouches for, and one
lemma for each effect, from `setVar_altered` to `pushInterruptPhase_altered`.
-/

namespace Tabletop

open Relation (ReflTransGen)

/-! ## Attempts that ask for nothing -/

/-- An attempt that asks for nothing: it comes to what is described, or it is faulty. -/
def Settled {α : Type} (P : α → Prop) : Attempt α → Prop
  | .ok x => P x
  | .error (.fault _) => True
  | .error (.pending _) => False
  | .error (.refused _ _) => False

namespace Settled

variable {α β : Type} {P : α → Prop} {Q : β → Prop}

/-- An attempt that comes to what is described is settled. -/
theorem ok {x : α} (h : P x) : Settled P (.ok x) := h

/-- Doing nothing is settled, if what it comes to is described. -/
theorem pure {x : α} (h : P x) : Settled P (Pure.pure x) := h

/-- An attempt that fails asks for nothing. -/
theorem fail (s : Site) (cause : EffectFault) : Settled P (s.fail cause) := trivial

/-- A result asks for nothing. -/
theorem lift {r : Result α} (h : ∀ x, r = .ok x → P x) : Settled P (liftM r : Attempt α) := by
  cases r with
  | error f => exact trivial
  | ok x => exact h x rfl

/-- What asks for nothing step by step asks for nothing as a whole. -/
theorem bind {a : Attempt α} {f : α → Attempt β} (h : Settled P a)
    (hf : ∀ x, P x → Settled Q (f x)) : Settled Q (a >>= f) := by
  cases a with
  | ok x => exact hf x h
  | error e =>
    cases e with
    | fault f => trivial
    | pending d => exact h
    | refused name cause => exact h

/-- What a settled attempt comes to may be described more loosely. -/
theorem mono {P' : α → Prop} {a : Attempt α} (h : Settled P a) (hP : ∀ x, P x → P' x) :
    Settled P' a := by
  cases a with
  | ok x => exact hP x h
  | error e => cases e <;> exact h

/-- An attempt that depends on a test is settled if both of its branches are. -/
theorem ite {c : Prop} [Decidable c] {a b : Attempt α} (hpos : c → Settled P a)
    (hneg : ¬c → Settled P b) : Settled P (if c then a else b) := by
  by_cases h : c
  · rw [if_pos h]
    exact hpos h
  · rw [if_neg h]
    exact hneg h

/-- What a success has come to. -/
theorem of_ok {a : Attempt α} (h : Settled P a) {x : α} (hx : a = .ok x) : P x := by
  subst hx
  exact h

end Settled

/-! ## Alterations -/

/-- One way in which effects change a session. -/
inductive Alters : Setting → Session → Session → Prop where
  /-- A variable takes a value within its bounds. -/
  | storeVar {here : Site} {x : Session} {target : VarTarget} {name : String} {slot : VarSlot}
      (hslot : here.varSlot x target name = .ok slot) (n : Int) :
      Alters here.setting x
        (here.storeVar x slot.scope name slot.current (slot.declared.clamp n))
  /-- A marker on a zone takes another of its states. -/
  | setMarker {here : Site} {x : Session} {space : ZoneId} {marker old new : String}
      {lattice : Lattice} (hspace : x.state.store.hasZone space = true)
      (hlattice : here.definition.marker? marker = some lattice) (hnew : lattice.has new = true)
      (hold : x.state.marker here.definition space marker = .ok old) (hne : old ≠ new) :
      Alters here.setting x
        (here.note (x.withState (x.state.setMarker space marker new))
          (.markerChanged space marker old new))
  /-- A token takes another place in its zone. -/
  | moveWithin {here : Site} {x : Session} {id : TokenId} {zone : ZoneId} {index : Nat}
      {token : Token} {place : InsertAt} {placement : Placement} {taken put : Store}
      {random : RandomState} (hlocated : x.state.store.locate id = .found zone index)
      (htaken : x.state.store.remove? zone index = some (token, taken))
      (hplace : place.placement (here.definition.orderOf zone) (taken.size zone) x.state.random =
        (placement, random))
      (hput : taken.insert? zone token placement = some put) :
      Alters here.setting x (x.withState { x.state with store := put, random })
  /-- A token moves to another zone. -/
  | moveAcross {here : Site} {x : Session} {id : TokenId} {source target : ZoneId} {index : Nat}
      {token : Token} {place : InsertAt} {placement : Placement} {taken put : Store}
      {random : RandomState} (hne : source ≠ target)
      (hlocated : x.state.store.locate id = .found source index)
      (htaken : x.state.store.remove? source index = some (token, taken))
      (hplace : place.placement (here.definition.orderOf target) (taken.size target)
        x.state.random = (placement, random))
      (hput : taken.insert? target token placement = some put)
      (hstacking : checkStacking here.definition put target = .ok ()) :
      Alters here.setting x
        (here.arrive (x.withState { x.state with store := put, random }) id source target)
  /-- A block of tokens moves to another zone. -/
  | moveBlock {here : Site} {x : Session} {source target : ZoneId}
    {block rest old tokens : List Token}
      (hne : source ≠ target) (hblock : block ≠ [])
      (hparts : (x.state.store.tokens source).Perm (block ++ rest))
      (hsublist : block.Sublist (x.state.store.tokens source))
      (hold : x.state.store.tokens? target = some old)
      (htokens : tokens =
        match here.definition.orderOf target with
        | .queue => old ++ block
        | _ => block ++ old)
      (hstacking : checkStacking here.definition
        ((x.state.store.replace source rest).replace target tokens) target = .ok ()) :
      Alters here.setting x
        (block.foldl (fun x t => here.arrive x t.id source target)
          (x.withStore ((x.state.store.replace source rest).replace target tokens)))
  /-- The tokens of a zone are shuffled. -/
  | shuffle {here : Site} {x : Session} {zone : ZoneId} {tokens : List Token} {random : RandomState}
      (hmany : 1 < (x.state.store.tokens zone).length)
      (hshuffled : x.state.random.shuffle (x.state.store.tokens zone) = (tokens, random)) :
      Alters here.setting x
        (here.note
          (x.withState { x.state with store := x.state.store.replace zone tokens, random })
          (.zoneShuffled zone))
  /-- A new token comes into a zone. -/
  | createToken {here : Site} {x : Session} {name : String} {type : TokenType} {zone : ZoneId}
      {given : List (String × Expr)} {props : Dict Scalar} {store : Store}
      (htype : here.definition.tokenType? name = some type)
      (hprops : here.newProps x type given type.props = .ok props)
      (hput : x.state.store.insert? zone
        { id := .ofOrdinal type.id x.state.nextToken, type := type.id, props } .front = some store)
      (hstacking : checkStacking here.definition store zone = .ok ()) :
      Alters here.setting x
        (here.note
          ((x.withState { x.state with store, nextToken := x.state.nextToken + 1 }).raise
            (.tokenEntered (.ofOrdinal type.id x.state.nextToken) none zone))
          (.tokenCreated (.ofOrdinal type.id x.state.nextToken) zone))
  /-- A token leaves the table. -/
  | destroyToken {here : Site} {x : Session} {id : TokenId} {zone : ZoneId} {index : Nat}
      {token : Token} {store : Store} (hlocated : x.state.store.locate id = .found zone index)
      (hid : token.id = id) (htaken : x.state.store.remove? zone index = some (token, store)) :
      Alters here.setting x (here.note (x.withStore store) (.tokenDestroyed id zone))
  /-- A prop of a token takes another value. -/
  | setTokenProp {here : Site} {x : Session} {id : TokenId} {zone : ZoneId} {index : Nat}
      {token : Token} {type : TokenType} {prop : String} {initial new : Scalar}
      (hlocated : x.state.store.locate id = .found zone index)
      (hfound : x.state.store.token? id = some token)
      (htype : here.definition.tokenType? token.type = some type)
      (hinitial : type.props.get? prop = some initial)
      (hne : (token.props.get? prop).getD initial ≠ new) :
      Alters here.setting x
        (here.note
          (x.withStore (x.state.store.modify id
            (fun t => { t with props := t.props.insert prop new })))
          (.tokenPropChanged id prop ((token.props.get? prop).getD initial) new))
  /-- A number is drawn. -/
  | roll {setting : Setting} {x : Session} {min max n : Int64} {random : RandomState}
      (hdrawn : x.state.random.drawInt min max = (n, random)) :
      Alters setting x (x.withState { x.state with random })
  /-- A seat is granted free operations. -/
  | grant {setting : Setting} {x : Session} {card : CardState} {offer : GrantOffer} (seat : Seat)
      (hcard : x.state.order.card? = some card) (huses : offer.uses ≠ 0) :
      Alters setting x (x.withState { x.state with order := .cardDriven (card.grant offer seat) })
  /-- A seat is said to be eligible or not. -/
  | override {setting : Setting} {x : Session} {card : CardState} (seat : Seat) (eligible : Bool)
      (hcard : x.state.order.card? = some card) :
      Alters setting x
        (x.withState { x.state with order := .cardDriven (card.setOverride seat eligible) })
  /-- The current phase is suspended for an interrupt. -/
  | interrupt {setting : Setting} {x : Session} {phase : PhaseId}
      (hphase : setting.game.definition.turn.isInterrupt phase = true) :
      Alters setting x
        ((x.withState
          { x.state with suspended := x.state.suspended ++ [x.state.phase], phase }).raise
          (.phaseEnter phase))

/-- The grants that are pending. -/
def State.grants (s : State) : List Grant := (s.order.card?.map (·.grants)).getD []

/-- The pending grants are those that are noted for the card. -/
theorem State.grants_of_card? {s : State} {card : CardState} (h : s.order.card? = some card) :
    s.grants = card.grants := by
  simp [State.grants, h]

/-- A seat that effects can mean: one of the game, the active one, or the one for which they run. -/
def Setting.Knows (s : Setting) (x : Session) (seat : Seat) : Prop :=
  seat.toNat < x.state.seatCount ∨ seat = x.state.active ∨ seat = s.actor

/-- What is granted is granted to seats that effects can mean. -/
def Setting.Vouches (s : Setting) (x y : Session) : Prop :=
  ∀ grant ∈ y.state.grants, grant ∈ x.state.grants ∨ s.Knows x grant.seat

/-- An alteration as effects make it. -/
structure Amends (s : Setting) (x y : Session) : Prop where
  alters : Alters s x y
  vouches : s.Vouches x y

/-- Several alterations by effects, one after the other, or none. -/
abbrev Altered (s : Setting) : Session → Session → Prop := ReflTransGen (Amends s)

/-- A setting vouches for all that is granted where the turn order is left as it was. -/
theorem Setting.vouches_of_order {s : Setting} {x y : Session}
    (h : y.state.order = x.state.order) : s.Vouches x y := by
  intro grant hgrant
  rw [State.grants, h] at hgrant
  exact .inl hgrant

/-- Most alterations leave the turn order alone. -/
theorem Alters.altered {s : Setting} {x y : Session} (h : Alters s x y)
    (horder : y.state.order = x.state.order) : Altered s x y :=
  .single ⟨h, Setting.vouches_of_order horder⟩

/-! ## Notes -/

namespace Site

variable (s : Site) (x : Session)

/-- Noting a change in the trace leaves the state. -/
@[simp] theorem note_state (change : Change) : (s.note x change).state = x.state := by
  unfold note
  split <;> rfl

/-- Noting a change in the trace counts no operation. -/
@[simp] theorem note_ops (change : Change) : (s.note x change).ops = x.ops := by
  unfold note
  split <;> rfl

/-- Noting a change in the trace raises no event. -/
theorem note_events (change : Change) : (s.note x change).events = x.events := by
  unfold note
  split <;> rfl

/-- Noting a change in the trace leaves the turn order. -/
theorem note_order (change : Change) : (s.note x change).state.order = x.state.order := by
  rw [note_state]

/-- Tokens that arrive leave the state as it is. -/
theorem arriveAll_state (source target : ZoneId) (ts : List Token) :
    (ts.foldl (fun x t => s.arrive x t.id source target) x).state = x.state := by
  induction ts generalizing x with
  | nil => rfl
  | cons t ts ih => exact (ih _).trans (s.note_state _ _)

/-- Tokens that arrive in a zone, one after the other, leave the turn order. -/
theorem arriveAll_order (source target : ZoneId) (ts : List Token) :
    (ts.foldl (fun x t => s.arrive x t.id source target) x).state.order = x.state.order := by
  rw [arriveAll_state]

/-- An event is raised for each token that arrives. -/
theorem arriveAll_events (source target : ZoneId) (ts : List Token) :
    (ts.foldl (fun x t => s.arrive x t.id source target) x).events =
      x.events ++ ts.map (fun t => .tokenEntered t.id (some source) target) := by
  induction ts generalizing x with
  | nil => exact (List.append_nil _).symm
  | cons t ts ih =>
    have hfirst : (s.arrive x t.id source target).events =
        x.events ++ [.tokenEntered t.id (some source) target] := s.note_events _ _
    rw [List.foldl_cons, ih, hfirst, List.append_assoc, List.map_cons]
    rfl

/-- Tokens that arrive in a zone, one after the other, count no operation. -/
theorem arriveAll_ops (source target : ZoneId) (ts : List Token) :
    (ts.foldl (fun x t => s.arrive x t.id source target) x).ops = x.ops := by
  induction ts generalizing x with
  | nil => rfl
  | cons t ts ih => exact (ih _).trans (s.note_ops _ _)

end Site

/-! ## What effects come to -/

/-- Something that was demanded and found was there. -/
theorem orFault_eq_ok {α : Type} {a : Option α} {f : Fault} {x : α} (h : orFault a f = .ok x) :
    a = some x := by
  cases a with
  | none => cases h
  | some y => cases h; rfl

/-- A zone that a reference means is there. -/
theorem ZoneRef.hasZone_of_resolve {r : ZoneRef} {v : View} {zone : ZoneId}
    (h : r.resolve v = .ok zone) : v.state.store.hasZone zone = true := by
  obtain ⟨z, -, h⟩ := bind_eq_ok h
  split at h
  · rename_i hz
    cases h
    exact hz
  · cases h

/-- A seat that is found by its index is one of the game. -/
theorem Seat.lt_of_ofIndex? {index : Int} {count : Nat} {seat : Seat}
    (h : Seat.ofIndex? index count = some seat) : seat.toNat < count := by
  unfold ofIndex? at h
  split at h
  · rename_i hindex
    cases h
    exact Nat.lt_of_le_of_lt (Nat.mod_le _ _) hindex.2
  · cases h

/-- A seat that a reference means is known. -/
theorem SeatRef.known_of_resolve {r : SeatRef} {s : Site} {x : Session} {seat : Seat}
    (h : r.resolve (s.view x) = .ok seat) : s.setting.Knows x seat := by
  cases r with
  | active =>
    cases h
    exact .inr (.inl rfl)
  | actor =>
    cases h
    exact .inr (.inr rfl)
  | id seat' =>
    unfold resolve at h
    dsimp only at h
    split at h
    · rename_i hseat
      cases h
      exact .inl hseat
    · cases h
  | binding name =>
    obtain ⟨value, -, h⟩ := bind_eq_ok h
    obtain ⟨index, -, h⟩ := bind_eq_ok h
    exact .inl (Seat.lt_of_ofIndex? (orFault_eq_ok h))

/-- Writing a variable leaves the turn order. -/
theorem State.setVar_order (s : State) (scope : VarScope) (name : String) (x : Int64) :
    (s.setVar scope name x).order = s.order := by
  cases scope <;> rfl

namespace Site

variable (s : Site) (x : Session)

/-- The seat whose variable is written is known. -/
theorem known_of_varSlot {target : VarTarget} {name : String} {slot : VarSlot} {seat : Seat}
    (h : s.varSlot x target name = .ok slot) (hscope : slot.scope = .seat seat) :
    s.setting.Knows x seat := by
  cases target with
  | global =>
    obtain ⟨declared, -, h⟩ := bind_eq_ok h
    cases h
    cases hscope
  | seat ref =>
    obtain ⟨found, hfound, h⟩ := bind_eq_ok h
    obtain ⟨declared, -, h⟩ := bind_eq_ok h
    cases h
    cases hscope
    exact SeatRef.known_of_resolve hfound
  | zone ref =>
    obtain ⟨zone, -, h⟩ := bind_eq_ok h
    obtain ⟨declared, -, h⟩ := bind_eq_ok h
    cases h
    cases hscope

/-- Storing a clamped value in a slot that was looked up is an alteration, or none if nothing
changes. -/
theorem storeVar_altered {target : VarTarget} {name : String} {slot : VarSlot}
    (hslot : s.varSlot x target name = .ok slot) (n : Int) :
    Altered s.setting x (s.storeVar x slot.scope name slot.current (slot.declared.clamp n)) := by
  refine (Alters.storeVar hslot n).altered ?_
  unfold storeVar
  split
  · rfl
  · rw [note_state]
    exact State.setVar_order _ _ _ _

/-- Setting a variable alters the session as effects may. -/
theorem setVar_altered {target : VarTarget} {name : String} {value : Expr} {y : Session}
    (h : s.setVar x target name value = .ok y) : Altered s.setting x y := by
  obtain ⟨value, -, h⟩ := bind_eq_ok h
  obtain ⟨n, -, h⟩ := bind_eq_ok h
  obtain ⟨slot, hslot, h⟩ := bind_eq_ok h
  cases h
  exact s.storeVar_altered x hslot _

/-- Adding to a variable alters the session as effects may. -/
theorem addVar_altered {target : VarTarget} {name : String} {delta : Expr} {y : Session}
    (h : s.addVar x target name delta = .ok y) : Altered s.setting x y := by
  obtain ⟨n, -, h⟩ := bind_eq_ok h
  obtain ⟨slot, hslot, h⟩ := bind_eq_ok h
  cases h
  exact s.storeVar_altered x hslot _

/-- Setting a marker asks for nothing and alters the session as effects may. -/
theorem setMarker_altered (space : ZoneRef) (marker : String) (state : Expr) :
    Settled (Altered s.setting x) (s.setMarker x space marker state) := by
  refine .bind (.lift (fun _ h => h)) (fun zone hzone => ?_)
  refine .bind (.lift (fun _ h => h)) (fun value _ => ?_)
  refine .bind (.lift (fun _ h => h)) (fun new _ => ?_)
  refine .bind (.lift (fun _ h => h)) (fun lattice hlattice => ?_)
  refine .ite (fun hnew => ?_) (fun _ => .fail _ _)
  refine .bind (.lift (fun _ h => h)) (fun old hold => ?_)
  refine .ite (fun _ => .pure .refl) (fun hne => .pure (Alters.altered ?_ ?_))
  · exact .setMarker (ZoneRef.hasZone_of_resolve hzone) (orFault_eq_ok hlattice) hnew hold hne
  · exact s.note_order _ _

/-- Locating a token asks for nothing and comes to the zone and the index where it is. -/
theorem locate_settled (id : TokenId) :
    Settled (fun p => x.state.store.locate id = .found p.1 p.2) (s.locate x id) := by
  unfold locate
  cases h : x.state.store.locate id with
  | found zone index => exact .ok rfl
  | missing => exact .fail _ _
  | several count => exact .fail _ _

/-- Locating a token in a given zone asks for nothing and comes to its index there. -/
theorem locateIn_settled (id : TokenId) (zone : ZoneId) :
    Settled (fun index => x.state.store.locate id = .found zone index) (s.locateIn x id zone) := by
  refine (s.locate_settled x id).bind (fun p hp => .ite (fun h => ?_) (fun _ => .fail _ _))
  exact .pure (h ▸ hp)

/-- Moving a token from where it was located to another place asks for nothing and is an
alteration. -/
theorem relocate_altered {id : TokenId} {source : ZoneId} {index : Nat}
    (hlocated : x.state.store.locate id = .found source index) (target : ZoneId)
    (place : InsertAt) :
    Settled (Altered s.setting x) (s.relocate x id source index target place) := by
  unfold relocate
  cases htaken : x.state.store.remove? source index with
  | none => exact .fail _ _
  | some p =>
    obtain ⟨token, taken⟩ := p
    refine .bind (.lift (fun _ h => h)) (fun put hput => ?_)
    refine .ite (fun h => .pure (Alters.altered ?_ rfl)) (fun hne => ?_)
    · subst h
      exact .moveWithin hlocated htaken rfl (orFault_eq_ok hput)
    · refine .bind (.lift (fun _ h => h)) (fun _ hstacking => .pure (Alters.altered ?_ ?_))
      · exact .moveAcross hne hlocated htaken rfl (orFault_eq_ok hput) hstacking
      · exact s.note_order _ _

/-- Moving a token between named zones asks for nothing and is an alteration. -/
theorem moveToken_altered (token : String) (source target : ZoneRef) (place : InsertAt) :
    Settled (Altered s.setting x) (s.moveToken x token source target place) := by
  refine .bind (.lift (fun _ _ => trivial)) (fun id _ => ?_)
  refine .bind (.lift (fun _ _ => trivial)) (fun source _ => ?_)
  refine .bind (.lift (fun _ _ => trivial)) (fun target _ => ?_)
  exact (s.locateIn_settled x id source).bind (fun index h => s.relocate_altered x h target place)

/-- Moving a token to an adjacent zone asks for nothing and is an alteration. -/
theorem moveTokenAdjacent_altered (token : String) (source target : ZoneRef) (place : InsertAt) :
    Settled (Altered s.setting x) (s.moveTokenAdjacent x token source target place) := by
  refine .bind (.lift (fun _ _ => trivial)) (fun id _ => ?_)
  refine .bind (.lift (fun _ _ => trivial)) (fun source _ => ?_)
  refine .bind (.lift (fun _ _ => trivial)) (fun target _ => ?_)
  refine .ite (fun _ => ?_) (fun _ => .fail _ _)
  exact (s.locateIn_settled x id source).bind (fun index h => s.relocate_altered x h target place)

/-- Moving a block of a zone's tokens to another zone asks for nothing and is an alteration. -/
theorem moveBlock_altered {source target : ZoneId} {block rest : List Token}
    (hne : source ≠ target) (hparts : (x.state.store.tokens source).Perm (block ++ rest))
    (hsublist : block.Sublist (x.state.store.tokens source)) :
    Settled (Altered s.setting x) (s.moveBlock x source target block rest) := by
  refine .ite (fun _ => .pure .refl) (fun hblock => ?_)
  refine .bind (.lift (fun _ h => h)) (fun old hold => ?_)
  refine .bind (.lift (fun _ h => h)) (fun _ hstacking => .pure (Alters.altered ?_ ?_))
  · have hold' := orFault_eq_ok hold
    rw [Store.tokens?_replace_ne _ _ hne.symm] at hold'
    exact .moveBlock hne (by simpa using hblock) hparts hsublist hold' rfl hstacking
  · exact s.arriveAll_order _ _ _ _

/-- Parting tokens leaves them all there, and the block in its order. -/
theorem part_eq_ok {filter : Filter} :
    ∀ {ts block rest : List Token}, s.part x filter ts = .ok (block, rest) →
      ts.Perm (block ++ rest) ∧ block.Sublist ts
  | [], _, _, h => by
    cases h
    exact ⟨.refl _, .slnil⟩
  | t :: ts, _, _, h => by
    obtain ⟨kept, -, h⟩ := bind_eq_ok h
    obtain ⟨⟨block, rest⟩, hpart, h⟩ := bind_eq_ok h
    obtain ⟨hperm, hsublist⟩ := part_eq_ok hpart
    cases kept with
    | true =>
      cases h
      exact ⟨hperm.cons t, hsublist.cons_cons t⟩
    | false =>
      cases h
      exact ⟨(hperm.cons t).trans List.perm_middle.symm, hsublist.cons t⟩

/-- Moving all tokens that a filter keeps asks for nothing and is an alteration. -/
theorem moveAll_altered (source target : ZoneRef) (filter : Filter) :
    Settled (Altered s.setting x) (s.moveAll x source target filter) := by
  refine .bind (.lift (fun _ _ => trivial)) (fun source _ => ?_)
  refine .bind (.lift (fun _ _ => trivial)) (fun target _ => ?_)
  refine .ite (fun _ => .pure .refl) (fun hne => ?_)
  refine .bind (.lift (fun _ h => h)) (fun p hp => ?_)
  obtain ⟨hparts, hsublist⟩ := s.part_eq_ok x hp
  exact s.moveBlock_altered x hne hparts hsublist

/-- Drawing tokens asks for nothing and is an alteration. -/
theorem draw_altered (source target : ZoneRef) (count : Expr) :
    Settled (Altered s.setting x) (s.draw x source target count) := by
  refine .bind (.lift (fun _ _ => trivial)) (fun count _ => ?_)
  refine .bind (.lift (fun _ _ => trivial)) (fun source _ => ?_)
  refine .bind (.lift (fun _ _ => trivial)) (fun target _ => ?_)
  refine .ite (fun _ => .pure .refl) (fun h => ?_)
  refine s.moveBlock_altered x (fun heq => h (.inr heq)) ?_ (List.take_sublist _ _)
  rw [List.take_append_drop]

/-- Shuffling a zone alters the session as effects may. -/
theorem shuffle_altered {zone : ZoneRef} {y : Session} (h : s.shuffle x zone = .ok y) :
    Altered s.setting x y := by
  obtain ⟨zone, -, h⟩ := bind_eq_ok h
  dsimp only at h
  split at h
  · cases h
    exact .refl
  · rename_i hmany
    cases h
    exact (Alters.shuffle (Nat.lt_of_not_le hmany) rfl).altered
      (s.note_order _ _)

/-- Creating a token alters the session as effects may. -/
theorem createToken_altered {type : String} {zone : ZoneRef} {props : Dict Expr} {y : Session}
    (h : s.createToken x type zone props = .ok y) : Altered s.setting x y := by
  obtain ⟨type, htype, h⟩ := bind_eq_ok h
  obtain ⟨zone, -, h⟩ := bind_eq_ok h
  obtain ⟨props, hprops, h⟩ := bind_eq_ok h
  obtain ⟨store, hput, h⟩ := bind_eq_ok h
  obtain ⟨⟨⟩, hstacking, h⟩ := bind_eq_ok h
  cases h
  have hcreated := Alters.createToken (orFault_eq_ok htype) hprops (orFault_eq_ok hput) hstacking
  exact hcreated.altered (s.note_order _ _)

/-- Destroying a token asks for nothing and is an alteration. -/
theorem destroyToken_altered (token : String) :
    Settled (Altered s.setting x) (s.destroyToken x token) := by
  refine .bind (.lift (fun _ _ => trivial)) (fun id _ => ?_)
  refine (s.locate_settled x id).bind (fun p hlocated => .pure ?_)
  obtain ⟨token, store, htaken, hid⟩ := Store.remove?_of_locate hlocated
  rw [htaken]
  exact (Alters.destroyToken hlocated hid htaken).altered (s.note_order _ _)

/-- Setting a prop of a token asks for nothing and is an alteration. -/
theorem setTokenProp_altered (token prop : String) (value : Expr) :
    Settled (Altered s.setting x) (s.setTokenProp x token prop value) := by
  refine .bind (.lift (fun _ _ => trivial)) (fun id _ => ?_)
  refine (s.locate_settled x id).bind (fun p hlocated => ?_)
  refine .bind (.lift (fun _ _ => trivial)) (fun value _ => ?_)
  refine .bind (.lift (fun _ _ => trivial)) (fun new _ => ?_)
  cases hfound : x.state.store.token? id with
  | none => exact .fail _ _
  | some found =>
    refine .bind (.lift (fun _ h => h)) (fun type htype => ?_)
    refine .bind (.lift (fun _ h => h)) (fun initial hinitial => ?_)
    refine .ite (fun _ => .pure .refl) (fun hne => .pure (Alters.altered ?_ ?_))
    · exact .setTokenProp hlocated hfound (orFault_eq_ok htype) (orFault_eq_ok hinitial) hne
    · exact s.note_order _ _

/-- Removing items one by one within a budget asks for nothing and alters the session as effects
may. -/
theorem removeItems_altered (target : ZoneId) :
    ∀ (items : List Value) (budget : Nat) (x : Session),
      Settled (fun p => Altered s.setting x p.2) (s.removeItems target items budget x)
  | [], 0, _ => .ok .refl
  | _ :: _, 0, _ => .ok .refl
  | [], _ + 1, _ => .ok .refl
  | item :: items, budget + 1, x => by
    refine .bind (.lift (fun _ _ => trivial)) (fun id _ => ?_)
    refine (s.locate_settled x id).bind (fun p hlocated => ?_)
    refine (s.relocate_altered x hlocated target .top).bind (fun y hy => ?_)
    exact (removeItems_altered target items budget y).mono (fun _ hz => hy.trans hz)

/-- Removing from groups in turn within a budget asks for nothing and alters the session as effects
may. -/
theorem removeGroups_altered :
    ∀ (groups : List PriorityGroup) (budget : Nat) (x : Session),
      Settled (fun p => Altered s.setting x p.2) (s.removeGroups groups budget x)
  | [], 0, _ => .ok .refl
  | _ :: _, 0, _ => .ok .refl
  | [], _ + 1, _ => .ok .refl
  | g :: groups, budget + 1, x => by
    refine .bind (.lift (fun _ _ => trivial)) (fun items _ => ?_)
    refine .bind (.lift (fun _ _ => trivial)) (fun target _ => ?_)
    refine (s.removeItems_altered target items (budget + 1) x).bind (fun p hp => ?_)
    exact (removeGroups_altered groups p.1 p.2).mono (fun _ hz => hp.trans hz)

/-- Removing by priority asks for nothing and alters the session as effects may. -/
theorem removeByPriority_altered (budget : Expr) (groups : List PriorityGroup) :
    Settled (fun p => Altered s.setting x p.2) (s.removeByPriority x budget groups) := by
  refine .bind (.lift (fun _ _ => trivial)) (fun budget _ => ?_)
  refine .ite (fun _ => .fail _ _) (fun _ => ?_)
  exact (s.removeGroups_altered groups _ x).bind (fun _ hp => .pure hp)

/-- Drawing a number asks for nothing and alters the session as effects may. -/
theorem roll_altered (min max : Expr) :
    Settled (fun p => Altered s.setting x p.2) (s.roll x min max) := by
  refine .bind (.lift (fun _ _ => trivial)) (fun min _ => ?_)
  refine .bind (.lift (fun _ _ => trivial)) (fun max _ => ?_)
  exact .ite (fun _ => .fail _ _) (fun _ => .pure ((Alters.roll rfl).altered rfl))

/-- Looking up the cards asks for nothing and comes to what is noted of the current one. -/
theorem cards_settled (effect : String) :
    Settled (fun card => x.state.order.card? = some card) (s.cards x effect) := by
  unfold cards
  cases h : x.state.order.card? with
  | none => exact .fail _ _
  | some card => exact .ok rfl

/-- Granting a free operation asks for nothing and is an alteration. -/
theorem grantFreeOperation_altered (o : GrantOffer) :
    Settled (Altered s.setting x) (s.grantFreeOperation x o) := by
  refine .bind (.lift (fun _ h => h)) (fun seat hseat => ?_)
  refine .ite (fun _ => .fail _ _) (fun huses => ?_)
  refine (s.cards_settled x _).bind (fun card hcard => .pure (.single ?_))
  refine ⟨.grant seat hcard huses, fun grant hgrant => ?_⟩
  rcases List.mem_append.1 hgrant with hold | hnew
  · left
    rw [State.grants_of_card? hcard]
    exact hold
  · right
    rw [List.mem_singleton.1 hnew]
    exact SeatRef.known_of_resolve hseat

/-- Overriding an eligibility asks for nothing and is an alteration. -/
theorem setEligibilityOverride_altered (seat : SeatRef) (eligible : Bool) :
    Settled (Altered s.setting x) (s.setEligibilityOverride x seat eligible) := by
  refine .bind (.lift (fun _ _ => trivial)) (fun seat _ => ?_)
  refine (s.cards_settled x _).bind (fun card hcard => .pure (.single ?_))
  refine ⟨.override seat eligible hcard, fun grant hgrant => .inl ?_⟩
  rw [State.grants_of_card? hcard]
  exact hgrant

/-- Interrupting the current phase asks for nothing and is an alteration. -/
theorem pushInterruptPhase_altered (phase : PhaseId) :
    Settled (Altered s.setting x) (s.pushInterruptPhase x phase) :=
  .ite (fun hphase => .ok ((Alters.interrupt hphase).altered rfl)) (fun _ => .fail _ _)

end Site

end Tabletop
