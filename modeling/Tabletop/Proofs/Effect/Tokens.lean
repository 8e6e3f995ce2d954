import Tabletop.Proofs.Board.Numbering
import Tabletop.Proofs.Effect.Alteration

/-!
# What effects do to tokens

No effect but creating and destroying makes a token come or go.  After a run of effects the tokens
on the table, together with those that have been destroyed, are those from before together with
those that have been created; a trace tells which ones these are.

Main statement: `Alters.accounted`.
-/

namespace Tabletop

/-! ## Traces -/

/-- The token that a change creates. -/
def Change.created? : Change → Option TokenId
  | .tokenCreated id _ => some id
  | _ => none

/-- The token that a change destroys. -/
def Change.destroyed? : Change → Option TokenId
  | .tokenDestroyed id _ => some id
  | _ => none

/-- The tokens that the changes of a trace create, in order. -/
def createdIn (trace : List TraceEntry) : List TokenId :=
  trace.filterMap (fun e => e.change.created?)

/-- The tokens that the changes of a trace destroy, in order. -/
def destroyedIn (trace : List TraceEntry) : List TokenId :=
  trace.filterMap (fun e => e.change.destroyed?)

/-- Between two states a trace accounts for the tokens: those that are there in the end or have been
destroyed are those that were there at first or have been created, the latter under the next
numbers.  No zone has gone. -/
structure Accounts (trace : List TraceEntry) (s t : State) (types : List String)
    (gone : List (TokenId × String)) : Prop where
  kinds : t.store.kinds + gone = s.store.kinds + TokenId.series s.nextToken types
  created : (TokenId.series s.nextToken types).map (·.1) = createdIn trace
  destroyed : gone.map (·.1) = destroyedIn trace
  nextToken : t.nextToken = s.nextToken + UInt64.ofNat types.length
  zones : ∀ zone, s.store.hasZone zone = true → t.store.hasZone zone = true

/-- A trace creates as many tokens as it accounts for. -/
theorem Accounts.length_types {trace : List TraceEntry} {s t : State} {types : List String}
    {gone : List (TokenId × String)} (h : Accounts trace s t types gone) :
    types.length = (createdIn trace).length := by
  rw [← h.created, List.length_map, TokenId.length_series]

/-- A trace accounts for the tokens between two states. -/
def Accounted (trace : List TraceEntry) (s t : State) : Prop :=
  ∃ types gone, Accounts trace s t types gone

namespace Accounted

variable {s t u : State} {trace trace' : List TraceEntry}

/-- A trace without creations and destructions, where tokens keep their kinds. -/
theorem still (hkinds : t.store.kinds = s.store.kinds) (hnext : t.nextToken = s.nextToken)
    (hzones : ∀ zone, s.store.hasZone zone = true → t.store.hasZone zone = true)
    (hquiet : ∀ e ∈ trace, e.change.created? = none ∧ e.change.destroyed? = none) :
    Accounted trace s t := by
  refine ⟨[], [], ?_, ?_, ?_, ?_, hzones⟩
  · simpa [TokenId.series] using hkinds
  · symm
    exact List.filterMap_eq_nil_iff.2 (fun e he => (hquiet e he).1)
  · symm
    exact List.filterMap_eq_nil_iff.2 (fun e he => (hquiet e he).2)
  · simpa using hnext

/-- Nothing happens to the tokens where the store stays. -/
theorem same (hstore : t.store = s.store) (hnext : t.nextToken = s.nextToken) : Accounted [] s t :=
  still (by rw [hstore]) hnext (fun zone h => by rwa [hstore]) (fun _ he => by cases he)

/-- An empty trace accounts for the tokens of a state that stays. -/
theorem refl (s : State) : Accounted [] s s := same rfl rfl

/-- Accounts add up. -/
theorem trans (hst : Accounted trace s t) (htu : Accounted trace' t u) :
    Accounted (trace ++ trace') s u := by
  obtain ⟨types, gone, hst⟩ := hst
  obtain ⟨types', gone', htu⟩ := htu
  have hseries : TokenId.series s.nextToken (types ++ types') =
      TokenId.series s.nextToken types ++ TokenId.series t.nextToken types' := by
    rw [TokenId.series_append, hst.nextToken]
  refine ⟨types ++ types', gone ++ gone', ?_, ?_, ?_, ?_,
    fun zone h => htu.zones zone (hst.zones zone h)⟩
  · rw [hseries, ← Multiset.coe_add, ← Multiset.coe_add]
    calc u.store.kinds + (gone + gone')
      _ = u.store.kinds + gone' + gone := by ac_rfl
      _ = t.store.kinds + TokenId.series t.nextToken types' + gone := by rw [htu.kinds]
      _ = t.store.kinds + gone + TokenId.series t.nextToken types' := by ac_rfl
      _ = s.store.kinds + TokenId.series s.nextToken types + TokenId.series t.nextToken types' := by
        rw [hst.kinds]
      _ = _ := add_assoc _ _ _
  · rw [hseries, List.map_append, hst.created, htu.created, createdIn, createdIn, createdIn,
      List.filterMap_append]
  · rw [List.map_append, hst.destroyed, htu.destroyed, destroyedIn, destroyedIn, destroyedIn,
      List.filterMap_append]
  · rw [htu.nextToken, hst.nextToken, List.length_append, UInt64.ofNat_add, UInt64.add_assoc]

/-- What is accounted for from a state on is accounted for from any state with the same tokens. -/
theorem after (htu : Accounted trace t u) (hstore : t.store = s.store)
    (hnext : t.nextToken = s.nextToken) : Accounted trace s u :=
  (same hstore hnext).trans htu

/-- A token that is put into a zone under the next number has been created. -/
theorem created {token : Token} {zone : ZoneId} {place : Placement} {store : Store}
    {type : String} {e : TraceEntry} (hput : s.store.insert? zone token place = some store)
    (hkind : token.kind = (.ofOrdinal type s.nextToken, type))
    (hcreated : e.change.created? = some (.ofOrdinal type s.nextToken))
    (hdestroyed : e.change.destroyed? = none) :
    Accounted [e] s { s with store, nextToken := s.nextToken + 1 } := by
  refine ⟨[type], [], ?_, ?_, ?_, rfl, fun zone hzone => Store.hasZone_insert? hput hzone⟩
  · change store.kinds + _ = _
    rw [Store.kinds_insert? hput, hkind]
    simp only [TokenId.series, Multiset.coe_nil, Multiset.coe_singleton, add_zero]
    exact (Multiset.singleton_add _ _).symm.trans (add_comm _ _)
  · simp [createdIn, hcreated, TokenId.series]
  · simp [destroyedIn, hdestroyed]

/-- A token that is taken away has been destroyed. -/
theorem destroyed {token : Token} {zone : ZoneId} {index : Nat} {store : Store} {e : TraceEntry}
    (htaken : s.store.remove? zone index = some (token, store))
    (hcreated : e.change.created? = none) (hdestroyed : e.change.destroyed? = some token.id) :
    Accounted [e] s { s with store } := by
  refine ⟨[], [token.kind], ?_, ?_, ?_, ?_, fun zone hzone => Store.hasZone_remove? htaken hzone⟩
  · change store.kinds + _ = _
    rw [← Store.kinds_remove? htaken]
    simp only [TokenId.series, Multiset.coe_nil, Multiset.coe_singleton, add_zero]
    exact (add_comm _ _).trans (Multiset.singleton_add _ _)
  · simp [createdIn, hcreated, TokenId.series]
  · simp [destroyedIn, hdestroyed, Token.kind]
  · simp

/-- A zone that was there is there after everything that is accounted for. -/
theorem hasZone (h : Accounted trace s t) {zone : ZoneId} (hzone : s.store.hasZone zone = true) :
    t.store.hasZone zone = true := by
  obtain ⟨types, gone, haccounts⟩ := h
  exact haccounts.zones zone hzone

end Accounted

/-! ## Shuffles -/

namespace RandomState

/-- Shuffling from an index down only changes the order. -/
theorem shuffleDown_perm {α : Type} :
    ∀ (i : Nat) (items : Array α) (r : RandomState), (shuffleDown items r i).1.Perm items
  | 0, items, _ => .refl items
  | i + 1, items, r => by
    rw [shuffleDown]
    refine (shuffleDown_perm i _ _).trans ?_
    unfold Array.swapIfInBounds
    split
    · split
      · exact Array.swap_perm _ _
      · exact .refl items
    · exact .refl items

/-- Shuffled items are the items in some order. -/
theorem shuffle_perm {α : Type} (r : RandomState) (items : List α) :
    (r.shuffle items).1.Perm items := by
  have hperm := (shuffleDown_perm (items.length - 1) items.toArray r).toList
  exact hperm

/-- A shuffled list has the items that the list had. -/
theorem perm_of_shuffle {α : Type} {r r' : RandomState} {items shuffled : List α}
    (h : r.shuffle items = (shuffled, r')) : shuffled.Perm items := by
  have hperm := r.shuffle_perm items
  rw [h] at hperm
  exact hperm

end RandomState

/-! ## Effects -/

namespace Site

variable (s : Site) (x : Session)

/-- A note adds its change to the trace, if one is kept. -/
theorem exists_note_trace (change : Change) : ∃ e : TraceEntry, e.change = change ∧
    (s.setting.tracing = true → (s.note x change).trace = x.trace ++ [e]) := by
  refine ⟨{
    change
    provenance := {
      phase := x.state.phase
      cause := s.setting.cause
      action := s.setting.action
      path := s.path } }, rfl, fun htracing => ?_⟩
  rw [note, if_pos htracing]

/-- Tokens that arrive add nothing but moves to the trace. -/
theorem exists_arriveAll_trace (source target : ZoneId) (ts : List Token) :
    ∃ trace : List TraceEntry,
      (∀ e ∈ trace, e.change.created? = none ∧ e.change.destroyed? = none) ∧
      (s.setting.tracing = true →
        (ts.foldl (fun x t => s.arrive x t.id source target) x).trace = x.trace ++ trace) := by
  induction ts generalizing x with
  | nil => exact ⟨[], (fun _ he => by cases he), fun _ => (List.append_nil _).symm⟩
  | cons t ts ih =>
    obtain ⟨e, he, hnote⟩ := s.exists_note_trace (x.raise (.tokenEntered t.id (some source) target))
      (.tokenMoved t.id source target)
    obtain ⟨trace, hquiet, htrace⟩ := ih (s.arrive x t.id source target)
    refine ⟨e :: trace, ?_, fun htracing => ?_⟩
    · intro e' he'
      rcases List.mem_cons.1 he' with rfl | he'
      · rw [he]
        exact ⟨rfl, rfl⟩
      · exact hquiet e' he'
    · rw [List.foldl_cons, htrace htracing]
      change (s.note _ _).trace ++ trace = _
      rw [hnote htracing, List.append_assoc]
      rfl

end Site

/-- A session whose trace accounts for the tokens from another session on. -/
def Session.Accounted (tracing : Bool) (x y : Session) : Prop :=
  ∃ trace, Tabletop.Accounted trace x.state y.state ∧ (tracing = true → y.trace = x.trace ++ trace)

namespace Session.Accounted

variable {tracing : Bool} {x y z : Session}

/-- A session accounts for itself. -/
theorem refl (x : Session) : Accounted tracing x x :=
  ⟨[], .refl _, fun _ => (List.append_nil _).symm⟩

/-- A trace that accounts for one part of a run and then for the rest accounts for all of it. -/
theorem trans (hxy : Accounted tracing x y) (hyz : Accounted tracing y z) :
    Accounted tracing x z := by
  obtain ⟨trace, haccounted, htrace⟩ := hxy
  obtain ⟨trace', haccounted', htrace'⟩ := hyz
  refine ⟨trace ++ trace', haccounted.trans haccounted', fun h => ?_⟩
  rw [htrace' h, htrace h, List.append_assoc]

/-- Where nothing is noted, tokens that keep their kinds are accounted for. -/
theorem silent (htrace : y.trace = x.trace) (hkinds : y.state.store.kinds = x.state.store.kinds)
    (hnext : y.state.nextToken = x.state.nextToken)
    (hzones : ∀ zone, x.state.store.hasZone zone = true → y.state.store.hasZone zone = true) :
    Accounted tracing x y :=
  ⟨[], .still hkinds hnext hzones (fun _ he => by cases he),
    fun _ => htrace.trans (List.append_nil _).symm⟩

/-- Where a change is noted, the tokens are accounted for if they are by that change. -/
theorem noted (s : Site) {change : Change} (htrace : y.trace = x.trace)
    (h : ∀ e : TraceEntry, e.change = change → Tabletop.Accounted [e] x.state y.state) :
    Accounted s.setting.tracing x (s.note y change) := by
  obtain ⟨e, he, hnote⟩ := s.exists_note_trace y change
  refine ⟨[e], ?_, fun htracing => by rw [hnote htracing, htrace]⟩
  rw [Site.note_state]
  exact h e he

/-- Where a change is noted that is no creation or destruction, tokens that keep their kinds are
accounted for. -/
theorem note (s : Site) {change : Change} (htrace : y.trace = x.trace)
    (hkinds : y.state.store.kinds = x.state.store.kinds)
    (hnext : y.state.nextToken = x.state.nextToken)
    (hzones : ∀ zone, x.state.store.hasZone zone = true → y.state.store.hasZone zone = true)
    (hquiet : change.created? = none ∧ change.destroyed? = none) :
    Accounted s.setting.tracing x (s.note y change) := by
  refine noted s htrace (fun e he => .still hkinds hnext hzones (fun e' he' => ?_))
  obtain rfl := List.mem_singleton.1 he'
  rw [he]
  exact hquiet

end Session.Accounted

/-- Writing a variable leaves all tokens where they are. -/
@[simp] theorem State.setVar_store (s : State) (scope : VarScope) (name : String) (n : Int64) :
    (s.setVar scope name n).store = s.store := by
  cases scope <;> rfl

/-- Writing a variable takes no token number. -/
@[simp] theorem State.setVar_nextToken (s : State) (scope : VarScope) (name : String) (n : Int64) :
    (s.setVar scope name n).nextToken = s.nextToken := by
  cases scope <;> rfl

/-- Every alteration accounts for the tokens. -/
theorem Alters.accounted {s : Setting} {x y : Session} (h : Alters s x y) :
    x.Accounted s.tracing y := by
  cases h with
  | storeVar hslot n =>
    unfold Site.storeVar
    split
    · exact .refl x
    · refine .note _ rfl ?_ ?_ (fun zone hzone => ?_) ⟨rfl, rfl⟩
      · simp [Session.raise, Session.withState]
      · simp [Session.raise, Session.withState]
      · simpa [Session.raise, Session.withState] using hzone
  | setMarker => exact .note _ rfl rfl rfl (fun _ hzone => hzone) ⟨rfl, rfl⟩
  | moveWithin _ htaken _ hput =>
    have hkinds := Store.kinds_eq_of_allTokens_perm (Store.allTokens_relocate htaken hput)
    exact .silent rfl hkinds rfl
      (fun _ hzone => Store.hasZone_insert? hput (Store.hasZone_remove? htaken hzone))
  | moveAcross _ _ htaken _ hput _ =>
    have hkinds := Store.kinds_eq_of_allTokens_perm (Store.allTokens_relocate htaken hput)
    exact .note _ rfl hkinds rfl
      (fun _ hzone => Store.hasZone_insert? hput (Store.hasZone_remove? htaken hzone)) ⟨rfl, rfl⟩
  | moveBlock hne hblock hparts hsublist hold htokens hstacking =>
    rename_i here source target block rest old tokens
    have hperm : tokens.Perm (block ++ old) := by
      rw [htokens]
      split
      · exact List.perm_append_comm
      · exact .refl _
    obtain ⟨trace, hquiet, htrace⟩ := here.exists_arriveAll_trace
      (x.withStore ((x.state.store.replace source rest).replace target tokens)) source target block
    refine ⟨trace, ?_, htrace⟩
    rw [Site.arriveAll_state]
    have hkinds := Store.kinds_eq_of_allTokens_perm
      (Store.allTokens_moveBlock hne hblock hparts hold hperm)
    refine .still hkinds rfl (fun zone hzone => ?_) hquiet
    exact Store.hasZone_replace _ _ _ (Store.hasZone_replace _ _ _ hzone)
  | shuffle hmany hshuffled =>
    rename_i here zone tokens random
    refine .note _ rfl ?_ rfl (fun zone hzone => Store.hasZone_replace _ _ _ hzone) ⟨rfl, rfl⟩
    have hthere := Store.tokens?_of_ne_nil (s := x.state.store) (List.ne_nil_of_length_pos
      (Nat.lt_of_succ_lt hmany))
    exact Store.kinds_eq_of_allTokens_perm
      (Store.allTokens_replace_perm hthere (RandomState.perm_of_shuffle hshuffled))
  | createToken htype hprops hput hstacking =>
    refine .noted _ rfl (fun e he => ?_)
    exact .created hput rfl (by rw [he]; rfl) (by rw [he]; rfl)
  | destroyToken hlocated hid htaken =>
    refine .noted _ rfl (fun e he => ?_)
    exact .destroyed htaken (by rw [he]; rfl) (by rw [he, hid]; rfl)
  | setTokenProp =>
    exact .note _ rfl (Store.kinds_modify _ _ (fun _ => rfl)) rfl
      (fun _ hzone => Store.hasZone_modify _ _ _ hzone) ⟨rfl, rfl⟩
  | roll => exact .silent rfl rfl rfl (fun _ hzone => hzone)
  | grant => exact .silent rfl rfl rfl (fun _ hzone => hzone)
  | override => exact .silent rfl rfl rfl (fun _ hzone => hzone)
  | interrupt => exact .silent rfl rfl rfl (fun _ hzone => hzone)

end Tabletop
