import Tabletop.Proofs.Board.Whereabouts
import Tabletop.Proofs.Effect.Tokens
import Tabletop.Proofs.Effect.Asking

/-!
# Where tokens go, and what a trace tells of it

A trace notes the zones from and to which tokens move, and where they are created and destroyed.
For each token these are the legs of its way.  Between two states a story of what has happened
recounts where the tokens have gone if the legs of each, one after the other, lead from where it was
to where it is.

Effects note whatever they do to the whereabouts of tokens, so the trace of a run of effects is such
a story.

Main statements: `Alters.recounted` for one effect and `Reaches.recounted` for a run.
-/

namespace Tabletop

/-! ## Legs -/

/-- One leg of a token's way: where it was, if anywhere, and where it is then. -/
abbrev Leg := Option ZoneId × Option ZoneId

/-- Legs that lead from one place to another, each beginning where the one before has ended. -/
def Trail (a : Option ZoneId) : List Leg → Option ZoneId → Prop
  | [], b => a = b
  | leg :: legs, b => a = leg.1 ∧ Trail leg.2 legs b

namespace Trail

variable {a b c : Option ZoneId} {leg : Leg} {legs legs' : List Leg}

instance decidable : ∀ (a : Option ZoneId) (legs : List Leg) (b : Option ZoneId),
    Decidable (Trail a legs b)
  | a, [], b => inferInstanceAs (Decidable (a = b))
  | a, leg :: legs, b =>
    have := decidable leg.2 legs b
    inferInstanceAs (Decidable (a = leg.1 ∧ Trail leg.2 legs b))

/-- Ways add up. -/
theorem append (h : Trail a legs b) (h' : Trail b legs' c) : Trail a (legs ++ legs') c := by
  induction legs generalizing a with
  | nil =>
    rw [Trail] at h
    rwa [h]
  | cons leg legs ih => exact ⟨h.1, ih h.2⟩

end Trail

/-- The leg that a change is of the way of a token. -/
def Change.leg? (id : TokenId) : Change → Option Leg
  | .tokenMoved token source target => if token = id then some (some source, some target) else none
  | .tokenCreated token zone => if token = id then some (none, some zone) else none
  | .tokenDestroyed token zone => if token = id then some (some zone, none) else none
  | _ => none

/-- The legs of a token's way that a trace notes. -/
def legsIn (trace : List TraceEntry) (id : TokenId) : List Leg :=
  trace.filterMap (fun e => e.change.leg? id)

/-- The legs that a trace notes are those of its first entry and those of the others. -/
theorem legsIn_cons (e : TraceEntry) (trace : List TraceEntry) (id : TokenId) :
    legsIn (e :: trace) id = (e.change.leg? id).toList ++ legsIn trace id := by
  rw [legsIn, List.filterMap_cons]
  cases e.change.leg? id <;> rfl

/-! ## Stories -/

/-- What happens to tokens: a change that a trace notes, or a reveal, which it does not. -/
inductive Occurrence where
  | noted (entry : TraceEntry)
  | revealed (token : TokenId) (source : ZoneId) (target : Option ZoneId)

namespace Occurrence

/-- The entry of the trace. -/
def entry? : Occurrence → Option TraceEntry
  | noted entry => some entry
  | revealed .. => none

/-- The leg of the way of a token. -/
def leg? (id : TokenId) : Occurrence → Option Leg
  | noted entry => entry.change.leg? id
  | revealed token source target => if token = id then some (some source, target) else none

end Occurrence

/-- The part of a story that a trace notes. -/
def entriesOf (story : List Occurrence) : List TraceEntry := story.filterMap Occurrence.entry?

/-- A trace notes of two stories what it notes of each. -/
@[simp] theorem entriesOf_append (story story' : List Occurrence) :
    entriesOf (story ++ story') = entriesOf story ++ entriesOf story' := List.filterMap_append

/-- Of a story that is all noted, the trace notes all. -/
@[simp] theorem entriesOf_noted (trace : List TraceEntry) :
    entriesOf (trace.map .noted) = trace := by
  rw [entriesOf, List.filterMap_map]
  exact List.filterMap_some

/-- The legs of a token's way in a story. -/
def legsOf (story : List Occurrence) (id : TokenId) : List Leg := story.filterMap (·.leg? id)

/-- The legs of two stories are those of each, one after the other. -/
@[simp] theorem legsOf_append (story story' : List Occurrence) (id : TokenId) :
    legsOf (story ++ story') id = legsOf story id ++ legsOf story' id := List.filterMap_append

/-- The legs of a story that is all noted are those that the trace notes. -/
@[simp] theorem legsOf_noted (trace : List TraceEntry) (id : TokenId) :
    legsOf (trace.map .noted) id = legsIn trace id := List.filterMap_map

/-- The legs of a story that begins with an entry are that entry's and those of the rest. -/
theorem legsOf_noted_cons (e : TraceEntry) (story : List Occurrence) (id : TokenId) :
    legsOf (.noted e :: story) id = (e.change.leg? id).toList ++ legsOf story id := by
  rw [legsOf, List.filterMap_cons, Occurrence.leg?]
  cases e.change.leg? id <;> rfl

/-- A reveal is a leg of the way of the token that it reveals. -/
theorem legsOf_revealed_self (token : TokenId) (source : ZoneId) (target : Option ZoneId)
    (story : List Occurrence) :
    legsOf (.revealed token source target :: story) token =
      (some source, target) :: legsOf story token :=
  List.filterMap_cons_some (if_pos rfl)

/-- A reveal is no leg of the way of any other token. -/
theorem legsOf_revealed_ne {token id : TokenId} (source : ZoneId) (target : Option ZoneId)
    (story : List Occurrence) (h : token ≠ id) :
    legsOf (.revealed token source target :: story) id = legsOf story id :=
  List.filterMap_cons_none (if_neg h)

/-- A story recounts where the tokens go between two states.  This is to say, if they are numbered
and the numbers suffice for those that are created, they stay numbered, and the legs of each lead
from where it was to where it is. -/
def Recounts (story : List Occurrence) (s t : State) : Prop :=
  Numbered s.store.kinds s.nextToken →
    s.nextToken.toNat + (createdIn (entriesOf story)).length < UInt64.size →
      Numbered t.store.kinds t.nextToken ∧
        t.nextToken.toNat = s.nextToken.toNat + (createdIn (entriesOf story)).length ∧
        ∀ id, Trail (s.store.zoneOf? id) (legsOf story id) (t.store.zoneOf? id)

/-- Numbered tokens that are accounted for stay numbered. -/
theorem Accounted.numbered {trace : List TraceEntry} {s t : State} (h : Accounted trace s t)
    (hs : Numbered s.store.kinds s.nextToken)
    (hroom : s.nextToken.toNat + (createdIn trace).length < UInt64.size) :
    Numbered t.store.kinds t.nextToken ∧
      t.nextToken.toNat = s.nextToken.toNat + (createdIn trace).length := by
  obtain ⟨types, gone, haccounts⟩ := h
  rw [← haccounts.length_types] at hroom ⊢
  have hall : Numbered (t.store.kinds + gone) t.nextToken := by
    rw [haccounts.kinds, haccounts.nextToken]
    exact hs.add hroom
  refine ⟨hall.mono (Multiset.le_add_right _ _), ?_⟩
  rw [haccounts.nextToken, TokenId.toNat_add_ofNat hroom]

namespace Recounts

variable {s t u : State} {trace : List TraceEntry} {story story' : List Occurrence}

/-- A trace that accounts for the tokens and has the legs of each. -/
theorem of_accounted (h : Accounted trace s t)
    (htrails : Numbered s.store.kinds s.nextToken → t.store.Distinct →
      ∀ id, Trail (s.store.zoneOf? id) (legsIn trace id) (t.store.zoneOf? id)) :
    Recounts (trace.map .noted) s t := by
  intro hs hroom
  rw [entriesOf_noted] at hroom ⊢
  obtain ⟨ht, hnext⟩ := h.numbered hs hroom
  refine ⟨ht, hnext, fun id => ?_⟩
  rw [legsOf_noted]
  exact htrails hs ht.nodup_ids id

/-- A story in which nothing is noted and no token comes on the table. -/
theorem unnoted (hkinds : t.store.kinds ≤ s.store.kinds) (hnext : t.nextToken = s.nextToken)
    (hentries : entriesOf story = [])
    (htrails : s.store.Distinct → t.store.Distinct →
      ∀ id, Trail (s.store.zoneOf? id) (legsOf story id) (t.store.zoneOf? id)) :
    Recounts story s t := by
  intro hs _
  have ht : Numbered t.store.kinds t.nextToken := hnext ▸ hs.mono hkinds
  rw [hentries]
  exact ⟨ht, congrArg _ hnext, htrails hs.nodup_ids ht.nodup_ids⟩

/-- Nothing happens to the tokens where the store stays. -/
theorem same (hstore : t.store = s.store) (hnext : t.nextToken = s.nextToken) :
    Recounts [] s t :=
  unnoted (by rw [hstore]) hnext rfl fun _ _ _ => by rw [hstore]; rfl

/-- Stories are told one after the other. -/
theorem trans (hst : Recounts story s t) (htu : Recounts story' t u) :
    Recounts (story ++ story') s u := by
  intro hs hroom
  have hcreated : (createdIn (entriesOf (story ++ story'))).length =
      (createdIn (entriesOf story)).length + (createdIn (entriesOf story')).length := by
    rw [entriesOf_append, createdIn, List.filterMap_append, List.length_append]
    rfl
  rw [hcreated] at hroom ⊢
  obtain ⟨ht, hnext, htrails⟩ := hst hs (by omega)
  obtain ⟨hu, hnext', htrails'⟩ := htu ht (by omega)
  refine ⟨hu, by omega, fun id => ?_⟩
  rw [legsOf_append]
  exact (htrails id).append (htrails' id)

end Recounts

/-! ## Effects -/

namespace Site

variable (s : Site) {x y : Session}

/-- Tokens that arrive are noted, each as often as it does. -/
theorem exists_arriveAll_legs (htracing : s.setting.tracing = true) (source target : ZoneId)
    (ts : List Token) (x : Session) :
    ∃ trace : List TraceEntry,
      (ts.foldl (fun x t => s.arrive x t.id source target) x).trace = x.trace ++ trace ∧
        ∀ id, legsIn trace id =
          List.replicate ((ts.map (·.id)).count id) (some source, some target) := by
  induction ts generalizing x with
  | nil => exact ⟨[], (List.append_nil _).symm, fun _ => rfl⟩
  | cons t ts ih =>
    obtain ⟨e, he, hnote⟩ := s.exists_note_trace (x.raise (.tokenEntered t.id (some source) target))
      (.tokenMoved t.id source target)
    obtain ⟨trace, htrace, hlegs⟩ := ih (s.arrive x t.id source target)
    refine ⟨e :: trace, ?_, fun id => ?_⟩
    · rw [List.foldl_cons, htrace]
      change (s.note _ _).trace ++ trace = _
      rw [hnote htracing, List.append_assoc]
      rfl
    · have hleg : e.change.leg? id =
          if t.id = id then some (some source, some target) else none := by
        rw [he]
        rfl
      rw [legsIn_cons, hlegs, hleg, List.map_cons]
      by_cases hid : t.id = id
      · subst hid
        rw [if_pos rfl, List.count_cons_self, List.replicate_succ]
        rfl
      · rw [if_neg hid, List.count_cons_of_ne hid]
        rfl

end Site

/-- A session whose trace tells where the tokens have gone from another session on. -/
def Session.Trails (x y : Session) : Prop :=
  ∃ trace, y.trace = x.trace ++ trace ∧
    ∀ id, Trail (x.state.store.zoneOf? id) (legsIn trace id) (y.state.store.zoneOf? id)

namespace Session.Trails

variable {x y : Session}

/-- Where nothing is noted, no token may have gone anywhere. -/
theorem silent (htrace : y.trace = x.trace)
    (h : ∀ id, y.state.store.zoneOf? id = x.state.store.zoneOf? id) : x.Trails y :=
  ⟨[], htrace.trans (List.append_nil _).symm, fun id => (h id).symm⟩

/-- Where a change is noted, its leg must be right. -/
theorem noted (s : Site) (htracing : s.setting.tracing = true) {change : Change}
    (htrace : y.trace = x.trace)
    (h : ∀ id, Trail (x.state.store.zoneOf? id) (change.leg? id).toList
      (y.state.store.zoneOf? id)) :
    x.Trails (s.note y change) := by
  obtain ⟨e, rfl, hnote⟩ := s.exists_note_trace y change
  refine ⟨[e], by rw [hnote htracing, htrace], fun id => ?_⟩
  rw [Site.note_state]
  have hlegs : legsIn [e] id = (e.change.leg? id).toList :=
    (legsIn_cons e [] id).trans (List.append_nil _)
  rw [hlegs]
  exact h id

/-- A change that concerns no token is noted where no token has gone anywhere. -/
theorem aside (s : Site) (htracing : s.setting.tracing = true) {change : Change}
    (htrace : y.trace = x.trace) (hquiet : ∀ id, change.leg? id = none)
    (h : ∀ id, y.state.store.zoneOf? id = x.state.store.zoneOf? id) :
    x.Trails (s.note y change) :=
  noted s htracing htrace fun id => by
    rw [hquiet id]
    exact (h id).symm

/-- A change that concerns one token is noted where no other token has gone anywhere. -/
theorem one (s : Site) (htracing : s.setting.tracing = true) {change : Change} {id : TokenId}
    {leg : Leg} (htrace : y.trace = x.trace)
    (hleg : ∀ other, change.leg? other = if id = other then some leg else none)
    (hbefore : x.state.store.zoneOf? id = leg.1) (hafter : y.state.store.zoneOf? id = leg.2)
    (hothers : ∀ other, other ≠ id →
      y.state.store.zoneOf? other = x.state.store.zoneOf? other) :
    x.Trails (s.note y change) := by
  refine noted s htracing htrace fun other => ?_
  rw [hleg other]
  by_cases hid : id = other
  · subst hid
    rw [if_pos rfl]
    exact ⟨hbefore, hafter.symm⟩
  · rw [if_neg hid]
    exact (hothers other (Ne.symm hid)).symm

end Session.Trails

/-- Every alteration notes where tokens go by it. -/
theorem Alters.trails {s : Setting} {x y : Session} (h : Alters s x y) (htracing : s.tracing = true)
    (hx : Numbered x.state.store.kinds x.state.nextToken) (hy : y.state.store.Distinct) :
    x.Trails y := by
  have hdistinct : x.state.store.Distinct := hx.nodup_ids
  cases h with
  | @storeVar here x target name slot hslot n =>
    unfold Site.storeVar
    split
    · exact .silent rfl fun _ => rfl
    · refine .aside _ htracing rfl (fun _ => rfl) fun id => ?_
      simp [Session.raise, Session.withState]
  | setMarker => exact .aside _ htracing rfl (fun _ => rfl) fun _ => rfl
  | @moveWithin here x _ zone index token place placement taken put random _ htaken _ hput =>
    obtain ⟨hbefore, hafter, hothers⟩ := Store.zoneOf?_relocate hdistinct hy htaken hput
    refine .silent rfl fun id => ?_
    by_cases hid : id = token.id
    · subst hid
      exact hafter.trans hbefore.symm
    · exact hothers id hid
  | moveAcross hne hlocated htaken hplace hput hstacking =>
    rw [Site.arrive, Site.note_state] at hy
    obtain ⟨token, taken, htaken', hid⟩ := Store.remove?_of_locate hlocated
    obtain ⟨rfl, rfl⟩ := Prod.mk.inj (Option.some.inj (htaken.symm.trans htaken'))
    obtain ⟨hbefore, hafter, hothers⟩ := Store.zoneOf?_relocate hdistinct hy htaken hput
    rw [hid] at hbefore hafter hothers
    exact .one _ htracing rfl (fun _ => rfl) hbefore hafter hothers
  | moveBlock hne hblock hparts hsublist hold htokens hstacking =>
    rename_i here source target block rest old tokens
    rw [Site.arriveAll_state] at hy
    have hperm : tokens.Perm (block ++ old) := by
      rw [htokens]
      split
      · exact List.perm_append_comm
      · exact .refl _
    obtain ⟨hmoved, hothers⟩ := Store.zoneOf?_moveBlock hdistinct hy hparts hold hperm
    obtain ⟨trace, htrace, hlegs⟩ := here.exists_arriveAll_legs htracing source target block
      (x.withStore ((x.state.store.replace source rest).replace target tokens))
    refine ⟨trace, htrace, fun id => ?_⟩
    have hnodup : (block.map (·.id)).Nodup :=
      (hsublist.map _).nodup (Store.nodup_ids hdistinct source)
    rw [Site.arriveAll_state, hlegs]
    by_cases hid : id ∈ block.map (·.id)
    · rw [List.count_eq_one_of_mem hnodup hid]
      obtain ⟨t, ht, rfl⟩ := List.mem_map.1 hid
      exact ⟨(hmoved t ht).1, (hmoved t ht).2.symm⟩
    · rw [List.count_eq_zero_of_not_mem hid]
      exact (hothers id hid).symm
  | shuffle hmany hshuffled =>
    rename_i here zone tokens random
    rw [Site.note_state] at hy
    refine .aside _ htracing rfl (fun _ => rfl) fun id =>
      Store.zoneOf?_eq_of_ids hdistinct hy (Store.mem_ids_replace ?_)
    exact ((RandomState.perm_of_shuffle hshuffled).map (·.id)).mem_iff
  | createToken htype hprops hput hstacking =>
    rw [Site.note_state] at hy
    refine .one _ htracing rfl (fun _ => rfl) (hx.zoneOf?_next _) ?_ fun other hne => ?_
    · exact (Store.zoneOf?_eq_some_iff hy).2 ((Store.mem_ids_insert? hput).2 (.inl ⟨rfl, rfl⟩))
    · refine Store.zoneOf?_eq_of_ids hdistinct hy fun zone => ?_
      refine (Store.mem_ids_insert? hput).trans ⟨fun h => h.resolve_left fun h => hne h.2, .inr⟩
  | destroyToken hlocated hid htaken =>
    rw [Site.note_state] at hy
    subst hid
    refine .one _ htracing rfl (fun _ => rfl) ?_ (Store.zoneOf?_remove? hdistinct htaken)
      fun other hne => ?_
    · exact (Store.zoneOf?_eq_some_iff hdistinct).2
        ((Store.mem_ids_remove? htaken).2 (.inl ⟨rfl, rfl⟩))
    · refine Store.zoneOf?_eq_of_ids hdistinct hy fun zone => ?_
      exact ((Store.mem_ids_remove? htaken).trans
        ⟨fun h => h.resolve_left fun h => hne h.2, .inr⟩).symm
  | setTokenProp =>
    rw [Site.note_state] at hy
    refine .aside _ htracing rfl (fun _ => rfl) fun id =>
      Store.zoneOf?_eq_of_ids hdistinct hy fun zone => ?_
    refine Iff.of_eq (congrArg (id ∈ ·) (Store.ids_modify _ _ ?_ zone))
    exact fun _ => rfl
  | roll => exact .silent rfl fun _ => rfl
  | grant => exact .silent rfl fun _ => rfl
  | override => exact .silent rfl fun _ => rfl
  | interrupt => exact .silent rfl fun _ => rfl

/-- A session whose trace recounts what has happened to the tokens from another session on. -/
def Session.Recounted (x y : Session) : Prop :=
  ∃ trace : List TraceEntry, y.trace = x.trace ++ trace ∧
    Recounts (trace.map .noted) x.state y.state

namespace Session.Recounted

variable {x y z : Session}

/-- A session with the same trace and the same state recounts that nothing has happened. -/
theorem same (htrace : y.trace = x.trace) (hstate : y.state = x.state) : x.Recounted y :=
  ⟨[], htrace.trans (List.append_nil _).symm, .same (by rw [hstate]) (by rw [hstate])⟩

/-- What has happened in two parts of a run can be recounted as one. -/
theorem trans (hxy : x.Recounted y) (hyz : y.Recounted z) : x.Recounted z := by
  obtain ⟨trace, htrace, hrecounts⟩ := hxy
  obtain ⟨trace', htrace', hrecounts'⟩ := hyz
  refine ⟨trace ++ trace', by rw [htrace', htrace, List.append_assoc], ?_⟩
  rw [List.map_append]
  exact hrecounts.trans hrecounts'

end Session.Recounted

/-- Every alteration recounts what happens to the tokens by it. -/
theorem Alters.recounted {s : Setting} {x y : Session} (h : Alters s x y)
    (htracing : s.tracing = true) : x.Recounted y := by
  obtain ⟨trace, haccounted, htrace⟩ := h.accounted
  refine ⟨trace, htrace htracing, .of_accounted haccounted fun hx hy => ?_⟩
  obtain ⟨trace', htrace', htrails⟩ := h.trails htracing hx hy
  obtain rfl : trace = trace' := List.append_cancel_left ((htrace htracing).symm.trans htrace')
  exact htrails

/-- The trace of a run of effects recounts what happens to the tokens. -/
theorem Reaches.recounted {s : Setting} {x y : Session} (h : Reaches s x y)
    (htracing : s.tracing = true) : x.Recounted y := by
  induction h with
  | refl => exact .same rfl rfl
  | tail _ hstep ih =>
    cases hstep with
    | spend => exact ih.trans (.same rfl rfl)
    | alter halters => exact ih.trans (halters.recounted htracing)

end Tabletop
