import Tabletop.Effect.Trace
import Tabletop.Proofs.Board.Places
import Tabletop.State.Basic

/-!
# Pictures of a state

Who watches a game has a picture of it: the variables, where the tokens are, the props of those
whose creation was not missed, and the markers.  A change that a trace notes changes the picture,
and says something about the state before it that can be compared with the picture at that point.

Main statements: `Picture.ShowsTokens.create`, `Picture.ShowsTokens.destroy`,
`Picture.ShowsTokens.setProp` and `Picture.replay_moves`, for the changes of tokens.
-/

namespace Tabletop

/-! ## What is seen of a state -/

/-- The stored value of a variable. -/
def State.stored? (s : State) : VarScope → String → Option Int64
  | .global, name => s.globalVar? name
  | .seat seat, name => s.seatVar? seat name
  | .zone zone, name => s.zoneVar? zone name

/-- The declaration of a variable. -/
def Definition.declared? (d : Definition) : VarScope → String → Option Variable
  | .global, name => d.globalVar? name
  | .seat _, name => d.seatVar? name
  | .zone _, name => d.zoneVar? name

/-- The value of a variable: the stored one, or else the initial one. -/
def State.valueOf? (s : State) (d : Definition) (scope : VarScope) (name : String) : Option Int64 :=
  (s.stored? scope name).or ((d.declared? scope name).map (·.initial))

/-- The state of a marker on a space: the stored one, or else the default. -/
def State.markerOf? (s : State) (d : Definition) (space : ZoneId) (name : String) : Option String :=
  (s.markers.get? space >>= fun m => m.get? name).or ((d.marker? name).map (·.default))

/-- The prop of a token: its own, or else that of its type. -/
def Definition.propOf? (d : Definition) (t : Token) (prop : String) : Option Scalar :=
  (t.props.get? prop).or (d.tokenType? t.type >>= fun type => type.props.get? prop)

/-- The token with a prop set. -/
def Token.setProp (t : Token) (prop : String) (x : Scalar) : Token :=
  { t with props := t.props.insert prop x }

/-- Setting a prop keeps the id and the type of a token. -/
theorem Token.kind_setProp (prop : String) (x : Scalar) (t : Token) :
    (t.setProp prop x).kind = t.kind := rfl

/-- A prop that has been set has its new value, and the other props are as they were. -/
theorem Definition.propOf?_setProp (d : Definition) (t : Token) (prop : String) (x : Scalar)
    (other : String) :
    d.propOf? (t.setProp prop x) other = if other = prop then some x else d.propOf? t other := by
  by_cases h : other = prop
  · subst h
    rw [if_pos rfl, propOf?, Token.setProp, Dict.get?_insert_self]
    rfl
  · rw [if_neg h, propOf?, Token.setProp, Dict.get?_insert_ne _ _ h]
    rfl

/-- What someone who watches knows of a state. -/
structure Picture where
  vars : VarScope → String → Option Int64
  /-- How many tokens of an id are in a zone. -/
  places : TokenId → ZoneId → Nat
  /-- The props of tokens, as far as they are known. -/
  props : TokenId → String → Option Scalar
  markers : ZoneId → String → Option String
  /-- The tokens that were seen to be created; with what props is not seen. -/
  newcomers : List TokenId
  /-- The ids of which a token was created while another one of the id was on the table. -/
  twins : TokenId → Prop

namespace Picture

/-- The picture of a state. -/
def of (d : Definition) (s : State) : Picture where
  vars := s.valueOf? d
  places := s.store.count
  props id prop := s.store.token? id >>= fun t => d.propOf? t prop
  markers := s.markerOf? d
  newcomers := []
  twins _ := False

/-- The picture with one token more in a zone. -/
def put (p : Picture) (id : TokenId) (zone : ZoneId) : Picture :=
  { p with
    places := fun id' zone' => p.places id' zone' + if id' = id ∧ zone' = zone then 1 else 0 }

/-- The picture with one token less in a zone. -/
def take (p : Picture) (id : TokenId) (zone : ZoneId) : Picture :=
  { p with
    places := fun id' zone' => p.places id' zone' - if id' = id ∧ zone' = zone then 1 else 0 }

/-- The picture has the token in a zone, and in no other; only ids with twins may be in several. -/
def Has (p : Picture) (id : TokenId) (zone : ZoneId) : Prop :=
  p.places id zone ≠ 0 ∧ (¬p.twins id → ∀ other, p.places id other ≠ 0 → other = zone)

end Picture

namespace Change

/-- The picture after a change. -/
def replay (p : Picture) : Change → Picture
  | tokenMoved id source target => (p.take id source).put id target
  | tokenCreated id zone =>
    { p.put id zone with
      newcomers := id :: p.newcomers
      twins := fun id' => p.twins id' ∨ id' = id ∧ ∃ other, p.places id other ≠ 0 }
  | tokenDestroyed id zone =>
    { p.take id zone with
      props := fun id' prop => if id' = id then none else p.props id' prop }
  | varChanged scope name _ new =>
    { p with
      vars := fun scope' name' =>
        if scope' = scope ∧ name' = name then some new else p.vars scope' name' }
  | tokenPropChanged id prop _ new =>
    { p with
      props := fun id' prop' => if id' = id ∧ prop' = prop then some new else p.props id' prop' }
  | markerChanged space name _ new =>
    { p with
      markers := fun space' name' =>
        if space' = space ∧ name' = name then some new else p.markers space' name' }
  | zoneShuffled _ => p

/-- What a change says about the state before it is in the picture.  Only the props of a token that
was seen to be created may be unknown. -/
def Fits (p : Picture) : Change → Prop
  | tokenMoved id source _ => p.Has id source
  | tokenCreated _ _ => True
  | tokenDestroyed id zone => p.Has id zone
  | varChanged scope name old _ => p.vars scope name = some old
  | tokenPropChanged id prop old _ =>
    p.props id prop = some old ∨ p.props id prop = none ∧ id ∈ p.newcomers
  | markerChanged space name old _ => p.markers space name = some old
  | zoneShuffled _ => True

end Change

namespace Picture

/-- The picture after several changes. -/
def replay (p : Picture) (changes : List Change) : Picture := changes.foldl Change.replay p

/-- What each of several changes says is in the picture at that point. -/
def Fits (p : Picture) : List Change → Prop
  | [] => True
  | change :: changes => change.Fits p ∧ Fits (change.replay p) changes

variable {p q : Picture} {d : Definition} {s : State} {store store' : Store}

/-- Changes that are replayed in two parts are replayed as a whole. -/
theorem replay_append (changes changes' : List Change) :
    p.replay (changes ++ changes') = (p.replay changes).replay changes' := List.foldl_append

/-- Changes fit if the first ones do and the others fit the picture after them. -/
theorem fits_append {changes changes' : List Change} :
    p.Fits (changes ++ changes') ↔ p.Fits changes ∧ (p.replay changes).Fits changes' := by
  induction changes generalizing p with
  | nil => simp [Fits, replay]
  | cons change changes ih =>
    rw [List.cons_append, Fits, Fits, ih, and_assoc]
    rfl

/-- What a change among others says is in the picture after those before it. -/
theorem Fits.at {before after : List Change} {change : Change}
    (h : p.Fits (before ++ change :: after)) : change.Fits (p.replay before) :=
  (fits_append.1 h).2.1

/-! ## Pictures of a state -/

/-- Tokens without twins are in one zone at most, and only once. -/
def Single (p : Picture) : Prop := ∀ id, ¬p.twins id → Lone (p.places id)

/-- The picture has a token wherever it counts one. -/
theorem Single.has (h : p.Single) {id : TokenId} {zone : ZoneId} (hplaces : p.places id zone ≠ 0) :
    p.Has id zone :=
  ⟨hplaces, fun htwins _ hother => (h id htwins).zone_eq hplaces hother⟩

/-- A token that moves is in its new zone only. -/
theorem Single.move (h : p.Single) {id : TokenId} {source target : ZoneId} (hne : source ≠ target)
    (hplaces : p.places id source ≠ 0) : ((p.take id source).put id target).Single := by
  intro id' htwins
  have hlone := h id' htwins
  by_cases hid : id' = id
  · subst hid
    -- It was in its old zone only, and once; so it is in its new zone only, and once.
    have hsource : p.places id' source = 1 := by
      have hle := hlone.once source
      omega
    have hother (zone : ZoneId) (hz : zone ≠ source) : p.places id' zone = 0 := by
      by_contra hnot
      exact hz (hlone.zone_eq hplaces hnot)
    refine .of_ite target fun zone => ?_
    simp only [put, take, true_and]
    by_cases hz : zone = source
    · rw [hz, hsource, if_pos rfl, if_neg hne]
    · rw [hother zone hz, if_neg hz]
      simp
  · exact hlone.mono fun zone => by simp [put, take, hid]

/-- Ids with twins are remembered when a token is created. -/
theorem Single.create (h : p.Single) (id : TokenId) (zone : ZoneId) :
    (Change.replay p (.tokenCreated id zone)).Single := by
  intro id' htwins
  obtain ⟨hbefore, hfirst⟩ := not_or.1 htwins
  by_cases hid : id' = id
  · subst hid
    -- There was none of the id, so the new token is the only one.
    have hnone (zone' : ZoneId) : p.places id' zone' = 0 := by
      by_contra hsome
      exact hfirst ⟨rfl, zone', hsome⟩
    exact .of_ite zone fun zone' => by simp [Change.replay, put, hnone zone']
  · exact (h id' hbefore).mono fun zone' => by simp [Change.replay, put, hid]

/-- The picture is one of the tokens of a store. -/
structure ShowsTokens (d : Definition) (store : Store) (p : Picture) : Prop where
  places : ∀ id zone, p.places id zone = store.count id zone
  single : p.Single
  /-- The props of a token that is the only one of its id are known, unless it was seen to be
  created. -/
  props : ∀ t ∈ store.allTokens, (store.allTokens.map (·.id)).count t.id = 1 → ∀ prop,
    p.props t.id prop = d.propOf? t prop ∨ p.props t.id prop = none ∧ t.id ∈ p.newcomers
  absent : ∀ id, id ∉ store.allTokens.map (·.id) → ∀ prop, p.props id prop = none

/-- The picture is one of a state. -/
structure Shows (d : Definition) (s : State) (p : Picture) : Prop where
  vars : p.vars = s.valueOf? d
  markers : p.markers = s.markerOf? d
  tokens : p.ShowsTokens d s.store

/-- The picture has the props of a token on the table. -/
def Keeps (d : Definition) (store : Store) (id : TokenId) (type : String) (p : Picture) : Prop :=
  ∃ t ∈ store.allTokens, t.id = id ∧ t.type = type ∧ ∀ prop, p.props id prop = d.propOf? t prop

/-- Tokens that stay on the table keep their props, wherever they are. -/
theorem ShowsTokens.stay (h : p.ShowsTokens d store) (hperm : store'.allTokens.Perm store.allTokens)
    (hplaces : ∀ id zone, q.places id zone = store'.count id zone) (hsingle : q.Single)
    (hprops : q.props = p.props) (hnew : q.newcomers = p.newcomers) : q.ShowsTokens d store' where
  places := hplaces
  single := hsingle
  props t ht hcount prop := by
    rw [hprops, hnew]
    rw [(hperm.map (·.id)).count_eq] at hcount
    exact h.props t (hperm.mem_iff.1 ht) hcount prop
  absent id hid prop := by
    rw [hprops]
    rw [(hperm.map (·.id)).mem_iff] at hid
    exact h.absent id hid prop

/-- A token keeps its props while tokens only change their places. -/
theorem Keeps.stay {id : TokenId} {type : String} (h : p.Keeps d store id type)
    (hperm : store'.allTokens.Perm store.allTokens) (hprops : q.props = p.props) :
    q.Keeps d store' id type := by
  obtain ⟨t, ht, hid, htype, hkeeps⟩ := h
  exact ⟨t, hperm.mem_iff.2 ht, hid, htype, hprops ▸ hkeeps⟩

/-- Some tokens of a zone that move to another, one after the other. -/
theorem replay_moves {source target : ZoneId} (hne : source ≠ target) :
    ∀ (ids : List TokenId) {p : Picture}, p.Single → (∀ id, ids.count id ≤ p.places id source) →
      ∃ places, p.Fits (ids.map (.tokenMoved · source target)) ∧
        p.replay (ids.map (.tokenMoved · source target)) = { p with places } ∧
        ({ p with places } : Picture).Single ∧
        ∀ id zone, places id zone = p.places id zone - (if zone = source then ids.count id else 0) +
          if zone = target then ids.count id else 0
  | [], p, hsingle, _ => ⟨p.places, trivial, rfl, hsingle, by simp⟩
  | id :: ids, p, hsingle, hcount => by
    have hhas : p.places id source ≠ 0 := by
      have hle := hcount id
      rw [List.count_cons_self] at hle
      omega
    have hafter (id' : TokenId) (zone : ZoneId) :
        ((p.take id source).put id target).places id' zone =
          p.places id' zone - (if id' = id ∧ zone = source then 1 else 0) +
            if id' = id ∧ zone = target then 1 else 0 := rfl
    obtain ⟨places, hfits, hreplay, hsingle', hplaces⟩ :=
      replay_moves hne ids (hsingle.move hne hhas) (fun id' => by
        have hle := hcount id'
        rw [Store.count_cons_id] at hle
        rw [hafter, if_neg (fun h => hne h.2 : ¬(id' = id ∧ source = target))]
        by_cases hid : id' = id
        · rw [if_pos hid] at hle
          rw [if_pos ⟨hid, rfl⟩]
          omega
        · rw [if_neg hid] at hle
          rw [if_neg (fun h => hid h.1)]
          omega)
    refine ⟨places, ⟨hsingle.has hhas, hfits⟩, hreplay, hsingle', fun id' zone => ?_⟩
    rw [hplaces, hafter, Store.count_cons_id]
    by_cases hid : id' = id
    · subst hid
      have hle := hcount id'
      rw [List.count_cons_self] at hle
      by_cases hz : zone = source
      · subst hz
        simp only [hne, and_false, true_and, if_true, if_false]
        omega
      · by_cases ht : zone = target
        · subst ht
          simp only [hz, and_false, true_and, if_true, if_false]
          omega
        · simp [hz, ht]
    · simp [hid]

/-- A token that is created is seen to be, and the others keep their props. -/
theorem ShowsTokens.create (h : p.ShowsTokens d store) {zone : ZoneId} {t : Token}
    {place : Placement} (hput : store.insert? zone t place = some store') :
    (Change.replay p (.tokenCreated t.id zone)).ShowsTokens d store' := by
  have hperm := Store.allTokens_insert? hput
  have hids := hperm.map (·.id)
  rw [List.map_cons] at hids
  constructor
  · intro id zone'
    rw [Store.count_insert? hput, ← h.places]
    rfl
  · exact h.single.create t.id zone
  · intro t' ht' hcount prop
    rw [hids.count_eq] at hcount
    by_cases hid : t'.id = t.id
    · -- The only token of the new id is the new one.
      rw [hid, List.count_cons_self] at hcount
      have habsent : t.id ∉ store.allTokens.map (·.id) := List.count_eq_zero.1 (by omega)
      right
      rw [hid]
      exact ⟨h.absent t.id habsent prop, List.mem_cons_self⟩
    · rw [List.count_cons_of_ne (Ne.symm hid)] at hcount
      rcases List.mem_cons.1 (hperm.mem_iff.1 ht') with rfl | hold
      · exact absurd rfl hid
      · refine (h.props t' hold hcount prop).imp_right fun ⟨hnone, hnew⟩ => ?_
        exact ⟨hnone, List.mem_cons_of_mem _ hnew⟩
  · intro id hid prop
    rw [hids.mem_iff, List.mem_cons, not_or] at hid
    exact h.absent id hid.2 prop

/-- A token keeps its props when another one is created. -/
theorem Keeps.create {id : TokenId} {type : String} (h : p.Keeps d store id type) {zone : ZoneId}
    {t : Token} {place : Placement} (hput : store.insert? zone t place = some store') :
    (Change.replay p (.tokenCreated t.id zone)).Keeps d store' id type := by
  obtain ⟨t', ht', hid, htype, hkeeps⟩ := h
  have hmem := (Store.allTokens_insert? hput).mem_iff.2 (List.mem_cons_of_mem t ht')
  exact ⟨t', hmem, hid, htype, hkeeps⟩

/-- A token that is taken out of a zone has been there. -/
theorem ShowsTokens.has (h : p.ShowsTokens d store) {zone : ZoneId} {t : Token} {index : Nat}
    (htaken : store.remove? zone index = some (t, store')) : p.Has t.id zone := by
  refine h.single.has ?_
  rw [h.places, Store.count_remove? htaken, if_pos ⟨rfl, rfl⟩]
  exact Nat.succ_ne_zero _

section setProp

variable {zone : ZoneId} {index : Nat} {id : TokenId} {t : Token} {prop : String} {x : Scalar}

/-- What is on the table after a prop of the only token of an id has been set. -/
theorem exists_split_of_setProp (hlocated : store.locate id = .found zone index)
    (hfound : store.token? id = some t) (prop : String) (x : Scalar) :
    ∃ pre post, store.allTokens = pre ++ t :: post ∧
      (store.modify id (fun t => t.setProp prop x)).allTokens = pre ++ t.setProp prop x :: post ∧
      ∀ t' ∈ pre ++ post, t'.id ≠ id := by
  obtain ⟨pre, post, hold, hnew⟩ := Store.exists_split_of_modify hfound (fun t => t.setProp prop x)
  refine ⟨pre, post, hold, hnew, fun t' ht' hid => ?_⟩
  have hone := Store.count_of_locate hlocated
  have hcount : ((pre ++ post).map (·.id)).count id ≠ 0 :=
    (List.count_pos_iff.2 (hid ▸ List.mem_map_of_mem ht')).ne'
  rw [hold, List.map_append, List.map_cons, List.count_append, (Store.token?_id hfound).2,
    List.count_cons_self] at hone
  rw [List.map_append, List.count_append] at hcount
  omega

/-- A prop that is set is seen, and the other props stay. -/
theorem ShowsTokens.setProp (h : p.ShowsTokens d store)
    (hlocated : store.locate id = .found zone index) (hfound : store.token? id = some t)
    (old : Scalar) :
    (Change.replay p (.tokenPropChanged id prop old x)).ShowsTokens d
      (store.modify id (fun t => t.setProp prop x)) := by
  obtain ⟨pre, post, hold, hnew, hothers⟩ := exists_split_of_setProp hlocated hfound prop x
  have hid := (Store.token?_id hfound).2
  have hids : (store.modify id (fun t => t.setProp prop x)).allTokens.map (·.id) =
      store.allTokens.map (·.id) := by
    rw [hold, hnew, List.map_append, List.map_append]
    rfl
  constructor
  · intro id' zone'
    rw [Store.count, Store.ids_modify _ _ (Token.kind_setProp prop x), ← Store.count, ← h.places]
    rfl
  · exact h.single
  · intro t' ht' hcount prop'
    rw [hids] at hcount
    change (if t'.id = id ∧ prop' = prop then some x else p.props t'.id prop') = _ ∨
      (if t'.id = id ∧ prop' = prop then some x else p.props t'.id prop') = none ∧ _
    rw [hnew] at ht'
    have hcases : t' = t.setProp prop x ∨ t' ∈ pre ++ post := by
      simpa [or_left_comm] using ht'
    rcases hcases with rfl | hmem
    · rw [Definition.propOf?_setProp]
      by_cases hprop : prop' = prop
      · exact .inl ((if_pos ⟨hid, hprop⟩).trans (if_pos hprop).symm)
      · rw [if_neg hprop, if_neg (fun h => hprop h.2)]
        have ht : t ∈ store.allTokens := (Store.token?_id hfound).1
        exact h.props t ht hcount prop'
    · rw [if_neg (fun h => hothers t' hmem h.1)]
      refine h.props t' ?_ hcount prop'
      rw [hold]
      simpa [or_left_comm] using Or.inr (a := t' = t) (List.mem_append.1 hmem)
  · intro id' hid' prop'
    rw [hids] at hid'
    have hne : id' ≠ id := by
      rintro rfl
      exact hid' (hid ▸ List.mem_map_of_mem (Store.token?_id hfound).1)
    exact (if_neg (fun h => hne h.1)).trans (h.absent id' hid' prop')

/-- A token keeps its props, the new one among them, when a prop is set. -/
theorem Keeps.setProp {id' : TokenId} {type : String} (h : p.Keeps d store id' type)
    (hlocated : store.locate id = .found zone index) (hfound : store.token? id = some t)
    (old : Scalar) :
    (Change.replay p (.tokenPropChanged id prop old x)).Keeps d
      (store.modify id (fun t => t.setProp prop x)) id' type := by
  obtain ⟨pre, post, hold, hnew, hothers⟩ := exists_split_of_setProp hlocated hfound prop x
  obtain ⟨t', ht', rfl, htype, hkeeps⟩ := h
  have hid := (Store.token?_id hfound).2
  rw [hold] at ht'
  have hcases : t' = t ∨ t' ∈ pre ++ post := by simpa [or_left_comm] using ht'
  rcases hcases with rfl | hmem
  · refine ⟨t'.setProp prop x, by rw [hnew]; simp, rfl, htype, fun prop' => ?_⟩
    rw [Definition.propOf?_setProp, ← hkeeps]
    change (if t'.id = id ∧ prop' = prop then some x else _) = _
    simp only [hid, true_and]
  · refine ⟨t', ?_, rfl, htype, fun prop' => ?_⟩
    · rw [hnew]
      simpa [or_left_comm] using Or.inr (a := t' = t.setProp prop x) (List.mem_append.1 hmem)
    · exact (if_neg (fun h => hothers t' hmem h.1)).trans (hkeeps prop')

end setProp

end Picture

end Tabletop
