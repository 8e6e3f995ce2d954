import Tabletop.Play.Start
import Tabletop.Proofs.Board.Places
import Tabletop.Proofs.Effect.Alteration

/-!
# Moves of tokens, zone by zone

A block of tokens that moves leaves the others of its zone behind in their order, and stands in its
new zone in its own order: before the tokens that were there, or behind them in a queue.  A single
token is taken out from between its neighbours, and is put among the tokens of its new zone at the
depth that its place has in the order of that zone.  No other zone is touched, every token keeps its
type and its props, and an event is raised for each token that comes into another zone.

A block is taken and put down as a whole.  The same comes of taking its tokens one at a time, each
at its place, and of putting them down one at a time.

Main statement: `Site.moves_tokens`, for the three effects; it rests on `Store.pluck_range'` and
`Store.pluck_filter` about tokens taken one at a time, and on `Session.MovesBlock.lay` about tokens
put down one at a time.
-/

namespace Tabletop

/-! ## Depths -/

namespace RandomState

/-- A number that is drawn below a bound is below it. -/
theorem toNat_below_le (size : UInt64) (fuel : Nat) (r : RandomState) :
    (below size fuel r).1.toNat ≤ size.toNat - 1 := by
  induction fuel generalizing r with
  | zero => exact Nat.zero_le _
  | succ fuel ih =>
    unfold below
    dsimp only
    split
    · refine Nat.le_trans (Nat.mod_le _ _) ?_
      rcases Nat.eq_zero_or_pos size.toNat with hzero | hpos
      · rw [hzero, Nat.mul_zero, Nat.zero_div]
      · refine Nat.le_sub_one_of_lt (Nat.div_lt_of_lt_mul ?_)
        exact Nat.mul_lt_mul_of_pos_right r.bits.1.toNat_lt hpos
    · exact ih _

/-- An index is drawn below the bound. -/
theorem drawIndex_lt (r : RandomState) (n : Nat) : (r.drawIndex (n + 1)).1 < n + 1 := by
  have hle := toNat_below_le (UInt64.ofNat (max (n + 1) 1)) period r
  have hsize : (UInt64.ofNat (max (n + 1) 1)).toNat ≤ n + 1 := by
    rw [Nat.max_eq_left (Nat.succ_pos n)]
    exact Nat.mod_le _ _
  exact Nat.lt_succ_of_le (Nat.le_trans hle (by omega))

end RandomState

/-- How many tokens come before the place where a token is put, out of as many as are there. -/
def InsertAt.depth (place : InsertAt) (order : ZoneOrder) (size drawn : Nat) : Nat :=
  match place with
  | .top => if order = .queue then size else 0
  | .bottom => if order = .queue then 0 else size
  | .random => drawn

/-- There are tokens enough for the depth. -/
theorem InsertAt.depth_le (place : InsertAt) (order : ZoneOrder) (size : Nat) (r : RandomState) :
    place.depth order size (r.drawIndex (size + 1)).1 ≤ size := by
  unfold depth
  split
  · split <;> omega
  · split <;> omega
  · exact Nat.le_of_lt_succ (r.drawIndex_lt size)

/-- A token is put at its depth, which is drawn only for a random place. -/
theorem InsertAt.placement_put {α : Type} (place : InsertAt) (order : ZoneOrder) (r : RandomState)
    (t : α) (ts : List α) :
    let depth := place.depth order ts.length (r.drawIndex (ts.length + 1)).1
    (place.placement order ts.length r).1.put t ts = ts.take depth ++ t :: ts.drop depth := by
  cases place with
  | top => cases order <;> simp [depth, placement, Placement.put]
  | bottom => cases order <;> simp [depth, placement, Placement.put]
  | random => rfl

/-- Only a random place takes a number from the stream, and then one index among all places. -/
theorem InsertAt.placement_state (place : InsertAt) (order : ZoneOrder) (size : Nat)
    (r : RandomState) :
    (place.placement order size r).2 =
      if place = .random then (r.drawIndex (size + 1)).2 else r := by
  cases place with
  | random => rfl
  | top => cases order <;> rfl
  | bottom => cases order <;> rfl

/-! ## Tokens that stay on the table -/

namespace Store

variable {s s' s'' : Store} {zone source target : ZoneId} {t : Token}
  {tokens block rest old : List Token}

/-- Where the same tokens are on the table and all differ, each is found as before. -/
theorem token?_eq_of_perm (hdistinct : s.Distinct) (hperm : s'.allTokens.Perm s.allTokens)
    (id : TokenId) :
    s'.token? id = s.token? id := by
  have hdistinct' : s'.Distinct := (hperm.map Token.id).nodup_iff.2 hdistinct
  cases hfound : s'.token? id with
  | some t =>
    obtain ⟨ht, rfl⟩ := token?_id hfound
    exact (Distinct.token?_eq hdistinct (hperm.mem_iff.1 ht)).symm
  | none =>
    cases hbefore : s.token? id with
    | none => rfl
    | some t =>
      obtain ⟨ht, rfl⟩ := token?_id hbefore
      rw [Distinct.token?_eq hdistinct' (hperm.mem_iff.2 ht)] at hfound
      cases hfound

/-- The tokens of a zone are replaced once and for all. -/
@[simp] theorem replace_replace (s : Store) (zone : ZoneId) (tokens tokens' : List Token) :
    (s.replace zone tokens).replace zone tokens' = s.replace zone tokens' := by
  refine congrArg Store.mk (Dict.ext_get? fun other => ?_)
  by_cases h : other = zone
  · subst h
    rw [replace, Dict.get?_insert_self, Dict.get?_insert_self]
  · rw [replace, Dict.get?_insert_ne _ _ h, Dict.get?_insert_ne _ _ h, Dict.get?_insert_ne _ _ h]

/-- Replacing the tokens of a zone by themselves changes nothing. -/
theorem replace_self (h : s.tokens? zone = some tokens) : s.replace zone tokens = s := by
  refine congrArg Store.mk (Dict.ext_get? fun other => ?_)
  by_cases hz : other = zone
  · subst hz
    rw [Dict.get?_insert_self]
    exact h.symm
  · rw [Dict.get?_insert_ne _ _ hz]

/-! ## One token at a time -/

/-- Takes the tokens at places of a zone, one after the other from the last place on. -/
def pluck (s : Store) (zone : ZoneId) : List Nat → Option (List Token × Store)
  | [] => some ([], s)
  | place :: places => do
    let (block, s) ← s.pluck zone places
    let (t, s) ← s.remove? zone place
    return (t :: block, s)

/-- Puts tokens into a zone, one after the other from a place on. -/
def lay (s : Store) (zone : ZoneId) (place : Nat) : List Token → Option Store
  | [] => some s
  | t :: ts => do (← s.insert? zone t (.index place)).lay zone (place + 1) ts

/-- A token is taken out from between its neighbours. -/
theorem remove?_replace (s : Store) (zone : ZoneId) (t : Token) (before after : List Token) :
    (s.replace zone (before ++ t :: after)).remove? zone before.length =
      some (t, s.replace zone (before ++ after)) := by
  simp [remove?, List.eraseIdx_append_of_length_le]

/-- Tokens that a test selects are taken in their order, and the others stay in theirs.  The first
tokens of the zone are not tested. -/
theorem pluck_filter (p : Token → Bool) :
    ∀ (front tokens : List Token), s.tokens? zone = some (front ++ tokens) →
      s.pluck zone (((tokens.zipIdx front.length).filter (fun e => p e.1)).map (·.2)) =
        some (tokens.filter p, s.replace zone (front ++ tokens.filter (fun t => !p t)))
  | front, [], h => by
    simp [pluck, replace_self (h.trans (by rw [List.append_nil]))]
  | front, t :: tokens, h => by
    have ih := pluck_filter p (front ++ [t]) tokens
      (by rw [h, List.append_assoc, List.singleton_append])
    rw [List.length_append, List.length_singleton] at ih
    rw [List.zipIdx_cons]
    cases hp : p t with
    | true => simp [hp, pluck, ih, remove?_replace]
    | false => simp [hp, ih]

/-- Tokens at consecutive places are taken in their order. -/
theorem pluck_range' : ∀ (front block back : List Token),
    s.tokens? zone = some (front ++ block ++ back) →
      s.pluck zone (List.range' front.length block.length) =
        some (block, s.replace zone (front ++ back))
  | front, [], back, h => by
    simp [pluck, replace_self (h.trans (by rw [List.append_nil]))]
  | front, t :: block, back, h => by
    have ih := pluck_range' (front ++ [t]) block back
      (by rw [h, List.append_assoc front [t] block, List.singleton_append])
    rw [List.length_append, List.length_singleton] at ih
    simp [List.range'_succ, pluck, ih, remove?_replace]

/-- Tokens that are put down one after the other stand together. -/
theorem lay_from : ∀ {s : Store} (front block back : List Token),
    s.tokens? zone = some (front ++ back) →
      s.lay zone front.length block = some (s.replace zone (front ++ block ++ back))
  | s, front, [], back, h => by
    rw [List.append_nil, replace_self h]
    rfl
  | s, front, t :: block, back, h => by
    have hput : s.insert? zone t (.index front.length) =
        some (s.replace zone (front ++ t :: back)) := by
      simp [insert?, h, Placement.put]
    have ih :=
      lay_from (s := s.replace zone (front ++ t :: back)) (front ++ [t]) block back (by simp)
    rw [List.length_append, List.length_singleton] at ih
    simp [lay, hput, ih]

end Store

/-! ## Blocks -/

/-- A session after a block of the tokens of one zone moved to another, leaving the rest behind. -/
structure Session.MovesBlock (d : Definition) (source target : ZoneId) (block rest : List Token)
    (x y : Session) : Prop where
  left : y.state.store.tokens? source = some rest
  joined : y.state.store.tokens? target =
    some (if d.orderOf target = .queue then x.state.store.tokens target ++ block
      else block ++ x.state.store.tokens target)
  others : ∀ zone, zone ≠ source → zone ≠ target →
    y.state.store.tokens? zone = x.state.store.tokens? zone
  same : ∀ id, y.state.store.token? id = x.state.store.token? id
  events : y.events = x.events ++ block.map (fun t => .tokenEntered t.id (some source) target)
  state : y.state = { x.state with store := y.state.store }

/-- The block comes into its new zone as its tokens do one after the other, if they were taken one
after the other. -/
theorem Session.MovesBlock.lay {d : Definition} {source target : ZoneId} {block rest : List Token}
    {x y : Session} (h : Session.MovesBlock d source target block rest x y) (hne : source ≠ target)
    (htarget : x.state.store.hasZone target = true) :
    (x.state.store.replace source rest).lay target
      (if d.orderOf target = .queue then x.state.store.size target else 0) block =
        some y.state.store := by
  have hold : (x.state.store.replace source rest).tokens? target =
      some (x.state.store.tokens target) := by
    rw [Store.tokens?_replace_ne _ _ hne.symm, Store.tokens?_of_hasZone htarget]
  -- The store is known zone by zone.
  have hstore {new : List Token} (hnew : y.state.store.tokens? target = some new) :
      (x.state.store.replace source rest).replace target new = y.state.store := by
    refine congrArg Store.mk (Dict.ext_get? fun zone => ?_)
    by_cases ht : zone = target
    · subst ht
      rw [Dict.get?_insert_self]
      exact hnew.symm
    · rw [Dict.get?_insert_ne _ _ ht]
      by_cases hs : zone = source
      · subst hs
        exact (Store.tokens?_replace_self _ _ _).trans h.left.symm
      · exact (Store.tokens?_replace_ne _ _ hs).trans (h.others zone hs ht).symm
  have htokens := h.joined
  by_cases hqueue : d.orderOf target = .queue
  · rw [if_pos hqueue] at htokens ⊢
    have hlay := Store.lay_from _ block [] (hold.trans (by rw [List.append_nil]))
    rw [List.append_nil, hstore htokens] at hlay
    exact hlay
  · rw [if_neg hqueue] at htokens ⊢
    have hlay := Store.lay_from [] block (x.state.store.tokens target) hold
    rw [List.nil_append, hstore htokens] at hlay
    exact hlay

/-- A session after the tokens at some places of a zone were taken one at a time, the last one
first, and put down in another zone one at a time, the first one first. -/
def Session.MovesSingly (d : Definition) (source target : ZoneId) (places : List Nat)
    (block : List Token) (x y : Session) : Prop :=
  ∃ taken, x.state.store.pluck source places = some (block, taken) ∧
    taken.lay target (if d.orderOf target = .queue then x.state.store.size target else 0) block =
      some y.state.store

/-- A block that moves from the front of its zone moves as its tokens do one at a time. -/
theorem Session.MovesBlock.singly_take {d : Definition} {source target : ZoneId} {n : Nat}
    {x y : Session} (hne : source ≠ target) (hsource : x.state.store.hasZone source = true)
    (htarget : x.state.store.hasZone target = true)
    (h : Session.MovesBlock d source target ((x.state.store.tokens source).take n)
      ((x.state.store.tokens source).drop n) x y) :
    Session.MovesSingly d source target (List.range (min n (x.state.store.size source)))
      ((x.state.store.tokens source).take n) x y := by
  have htokens := Store.tokens?_of_hasZone hsource
  have htaken := Store.pluck_range' [] ((x.state.store.tokens source).take n)
    ((x.state.store.tokens source).drop n)
    (by rw [List.nil_append, List.take_append_drop]; exact htokens)
  rw [List.length_nil, List.length_take, ← List.range_eq_range'] at htaken
  exact ⟨_, htaken, h.lay hne htarget⟩

/-- A block of the tokens that a test selects moves as its tokens do one at a time. -/
theorem Session.MovesBlock.singly_filter {d : Definition} {source target : ZoneId}
    {p : Token → Bool} {x y : Session} (hne : source ≠ target)
    (hsource : x.state.store.hasZone source = true) (htarget : x.state.store.hasZone target = true)
    (h : Session.MovesBlock d source target ((x.state.store.tokens source).filter p)
      ((x.state.store.tokens source).filter (fun t => !p t)) x y) :
    Session.MovesSingly d source target
      (((x.state.store.tokens source).zipIdx.filter (fun e => p e.1)).map (·.2))
      ((x.state.store.tokens source).filter p) x y :=
  ⟨_, Store.pluck_filter p [] _ (Store.tokens?_of_hasZone hsource), h.lay hne htarget⟩

/-- Whether a filter keeps a token; one that cannot be tested is not kept. -/
def Filter.selects (f : Filter) (v : View) (t : Token) : Bool :=
  (f.keeps v t.value).toOption.getD false

namespace Site

variable {s : Site} {x y : Session} {source target : ZoneId} {block rest : List Token}

/-- Nothing moves with an empty block. -/
theorem movesBlock_nil (d : Definition) (hsource : x.state.store.hasZone source = true)
    (htarget : x.state.store.hasZone target = true) :
    Session.MovesBlock d source target [] (x.state.store.tokens source) x x where
  left := Store.tokens?_of_hasZone hsource
  joined := by
    rw [List.append_nil, List.nil_append, ite_self]
    exact Store.tokens?_of_hasZone htarget
  others := fun _ _ _ => rfl
  same := fun _ => rfl
  events := (List.append_nil _).symm
  state := rfl

/-- A block that was put down has arrived. -/
theorem movesBlock_arriveAll {tokens : List Token} (hdistinct : x.state.store.Distinct)
    (hne : source ≠ target) (hblock : block ≠ [])
    (hparts : (x.state.store.tokens source).Perm (block ++ rest))
    (htarget : x.state.store.tokens? target = some (x.state.store.tokens target))
    (htokens : tokens =
      if s.definition.orderOf target = .queue then x.state.store.tokens target ++ block
      else block ++ x.state.store.tokens target) :
    Session.MovesBlock s.definition source target block rest x
      (block.foldl (fun x t => s.arrive x t.id source target)
        (x.withStore ((x.state.store.replace source rest).replace target tokens))) := by
  have hperm : tokens.Perm (block ++ x.state.store.tokens target) := by
    rw [htokens]
    split
    · exact List.perm_append_comm
    · exact .refl _
  refine ⟨?_, ?_, fun zone hsource htarget => ?_, fun id => ?_, ?_, ?_⟩
  · rw [arriveAll_state]
    refine (Store.tokens?_replace_ne _ _ hne).trans ?_
    exact Store.tokens?_replace_self _ _ _
  · rw [arriveAll_state, ← htokens]
    exact Store.tokens?_replace_self _ _ _
  · rw [arriveAll_state]
    exact (Store.tokens?_replace_ne _ _ htarget).trans (Store.tokens?_replace_ne _ _ hsource)
  · rw [arriveAll_state]
    exact Store.token?_eq_of_perm hdistinct
      (Store.allTokens_moveBlock hne hblock hparts htarget hperm) id
  · exact arriveAll_events _ _ _ _ _
  · rw [arriveAll_state]
    rfl

/-- What a block move that succeeds comes to, whichever tokens of the zone are in the block. -/
theorem movesBlock_of_moveBlock (hdistinct : x.state.store.Distinct) (hne : source ≠ target)
    (hsource : x.state.store.hasZone source = true) (htarget : x.state.store.hasZone target = true)
    (hparts : (x.state.store.tokens source).Perm (block ++ rest))
    (hnone : block = [] → rest = x.state.store.tokens source)
    (h : s.moveBlock x source target block rest = .ok y) :
    Session.MovesBlock s.definition source target block rest x y := by
  unfold moveBlock at h
  by_cases hblock : block = []
  · subst hblock
    rw [hnone rfl]
    cases h
    exact movesBlock_nil _ hsource htarget
  · rw [if_neg (by simpa using hblock)] at h
    obtain ⟨old, hold, h⟩ := bind_eq_ok h
    obtain ⟨⟨⟩, -, h⟩ := bind_eq_ok h
    cases h
    have hold := orFault_eq_ok (mapError_eq_ok hold)
    rw [Store.tokens?_replace_ne _ rest hne.symm] at hold
    obtain rfl := Store.tokens_of_tokens? hold
    refine movesBlock_arriveAll hdistinct hne hblock hparts hold ?_
    generalize s.definition.orderOf target = order
    cases order <;> rfl

/-! ## Selections -/

/-- Parting tokens tests each of them in the state from before, and keeps both parts in order. -/
theorem part_eq_filter {filter : Filter} : ∀ {ts block rest : List Token},
    s.part x filter ts = .ok (block, rest) →
      (∀ t ∈ ts, filter.keeps (s.view x) t.value = .ok (filter.selects (s.view x) t)) ∧
        block = ts.filter (filter.selects (s.view x)) ∧
          rest = ts.filter (fun t => !filter.selects (s.view x) t)
  | [], _, _, h => by
    cases h
    exact ⟨nofun, rfl, rfl⟩
  | t :: ts, _, _, h => by
    obtain ⟨kept, hkept, h⟩ := bind_eq_ok h
    obtain ⟨⟨block, rest⟩, hpart, h⟩ := bind_eq_ok h
    obtain ⟨htests, rfl, rfl⟩ := part_eq_filter hpart
    have hselects : filter.selects (s.view x) t = kept := by
      rw [Filter.selects, hkept]
      rfl
    have htest : filter.keeps (s.view x) t.value = .ok (filter.selects (s.view x) t) := by
      rw [hselects, hkept]
    refine ⟨List.forall_mem_cons.2 ⟨htest, htests⟩, ?_⟩
    cases kept with
    | true =>
      cases h
      rw [List.filter_cons_of_pos hselects, List.filter_cons_of_neg (by simp [hselects])]
      exact ⟨rfl, rfl⟩
    | false =>
      cases h
      rw [List.filter_cons_of_neg (by simp [hselects]),
        List.filter_cons_of_pos (by simp [hselects])]
      exact ⟨rfl, rfl⟩

variable {ref ref' : ZoneRef}

/-- Everything that a filter selects moves, and nothing else. -/
theorem movesBlock_of_moveAll {filter : Filter} (hdistinct : x.state.store.Distinct)
    (hne : source ≠ target) (hsource : ref.resolve (s.view x) = .ok source)
    (htarget : ref'.resolve (s.view x) = .ok target) (h : s.moveAll x ref ref' filter = .ok y) :
    (∀ t ∈ x.state.store.tokens source,
        filter.keeps (s.view x) t.value = .ok (filter.selects (s.view x) t)) ∧
      Session.MovesBlock s.definition source target
        ((x.state.store.tokens source).filter (filter.selects (s.view x)))
        ((x.state.store.tokens source).filter (fun t => !filter.selects (s.view x) t)) x y := by
  unfold moveAll at h
  rw [hsource, htarget] at h
  replace h := (if_neg hne).symm.trans h
  obtain ⟨⟨block, rest⟩, hpart, h⟩ := bind_eq_ok h
  obtain ⟨htests, rfl, rfl⟩ := part_eq_filter (mapError_eq_ok hpart)
  refine ⟨htests, movesBlock_of_moveBlock hdistinct hne (ZoneRef.hasZone_of_resolve hsource)
    (ZoneRef.hasZone_of_resolve htarget) ?_ (fun hnone => ?_) h⟩
  · exact (List.filter_append_perm _ _).symm
  · rw [List.filter_eq_nil_iff] at hnone
    exact List.filter_eq_self.2 fun t ht => by simpa using hnone t ht

/-- As many tokens as are drawn move from the front. -/
theorem movesBlock_of_draw {count : Expr} {n : Int64} (hdistinct : x.state.store.Distinct)
    (hne : source ≠ target) (hsource : ref.resolve (s.view x) = .ok source)
    (htarget : ref'.resolve (s.view x) = .ok target) (hcount : count.evalInt (s.view x) = .ok n)
    (h : s.draw x ref ref' count = .ok y) :
    Session.MovesBlock s.definition source target
      ((x.state.store.tokens source).take n.toInt.toNat)
      ((x.state.store.tokens source).drop n.toInt.toNat) x y := by
  unfold draw at h
  rw [hsource, htarget, hcount] at h
  have hzone := ZoneRef.hasZone_of_resolve hsource
  have hzone' := ZoneRef.hasZone_of_resolve htarget
  by_cases hn : n ≤ 0 ∨ source = target
  · -- Nothing is drawn, and as many tokens are in the block.
    replace h := (if_pos hn).symm.trans h
    cases h
    have hzero : n.toInt.toNat = 0 :=
      Int.toNat_of_nonpos (Int64.le_iff_toInt_le.1 (hn.resolve_right hne))
    rw [hzero, List.take_zero, List.drop_zero]
    exact movesBlock_nil _ hzone hzone'
  · replace h := (if_neg hn).symm.trans h
    refine movesBlock_of_moveBlock hdistinct hne hzone hzone' ?_ (fun hnone => ?_) h
    · rw [List.take_append_drop]
    · rcases List.take_eq_nil_iff.1 hnone with hzero | hempty
      · rw [hzero, List.drop_zero]
      · rw [hempty, List.drop_nil]

end Site

/-! ## Single tokens -/

/-- A session after a token was taken out from between its neighbours and put among those that are
then in a zone. -/
structure Session.MovesToken (d : Definition) (source target : ZoneId) (place : InsertAt)
    (t : Token) (before after amid : List Token) (x y : Session) : Prop where
  taken : x.state.store.tokens? source = some (before ++ t :: after)
  among : amid = if source = target then before ++ after else x.state.store.tokens target
  left : source ≠ target → y.state.store.tokens? source = some (before ++ after)
  joined : ∃ depth,
    depth = place.depth (d.orderOf target) amid.length
      (x.state.random.drawIndex (amid.length + 1)).1 ∧ depth ≤ amid.length ∧
    y.state.store.tokens? target = some (amid.take depth ++ t :: amid.drop depth)
  others : ∀ zone, zone ≠ source → zone ≠ target →
    y.state.store.tokens? zone = x.state.store.tokens? zone
  kept : y.state.store.allTokens.Perm x.state.store.allTokens
  events : y.events =
    x.events ++ if source = target then [] else [.tokenEntered t.id (some source) target]
  state : y.state = { x.state with
    store := y.state.store
    random :=
      if place = .random then (x.state.random.drawIndex (amid.length + 1)).2 else x.state.random }

namespace Site

variable {s : Site} {x y : Session} {source target : ZoneId} {id : TokenId} {index : Nat}
  {place : InsertAt}

/-- What a relocation that succeeds has done with the token that it has taken. -/
theorem relocate_eq_ok {t : Token} {taken : Store}
    (htaken : x.state.store.remove? source index = some (t, taken))
    (h : s.relocate x id source index target place = .ok y) :
    ∃ amid placement random, taken.tokens? target = some amid ∧
      place.placement (s.definition.orderOf target) amid.length x.state.random =
        (placement, random) ∧
      y.state = { x.state with store := taken.replace target (placement.put t amid), random } ∧
      y.events = x.events ++
        if source = target then [] else [.tokenEntered id (some source) target] := by
  unfold relocate at h
  rw [htaken] at h
  dsimp only at h
  generalize hplace : place.placement (s.definition.orderOf target) (taken.size target)
    x.state.random = p at h
  obtain ⟨placement, random⟩ := p
  obtain ⟨put, hput, h⟩ := bind_eq_ok h
  have hput := orFault_eq_ok (mapError_eq_ok hput)
  obtain ⟨amid, hamid, rfl⟩ := Option.map_eq_some_iff.1 hput
  rw [show taken.size target = amid.length from
    congrArg _ (Store.tokens_of_tokens? hamid)] at hplace
  refine ⟨amid, placement, random, hamid, hplace, ?_⟩
  by_cases hsame : source = target
  · replace h := (if_pos hsame).symm.trans h
    cases h
    rw [if_pos hsame, List.append_nil]
    exact ⟨rfl, rfl⟩
  · replace h := (if_neg hsame).symm.trans h
    obtain ⟨⟨⟩, -, h⟩ := bind_eq_ok h
    cases h
    rw [if_neg hsame]
    exact ⟨note_state _ _ _, note_events _ _ _⟩

/-- A token that was found moves from where it is. -/
theorem movesToken_of_relocate (hlocated : x.state.store.locate id = .found source index)
    (h : s.relocate x id source index target place = .ok y) :
    ∃ t before after amid, t.id = id ∧
      Session.MovesToken s.definition source target place t before after amid x y := by
  obtain ⟨t, taken, htaken, rfl⟩ := Store.remove?_of_locate hlocated
  obtain ⟨amid, placement, random, hamid, hplace, hstate, hevents⟩ := relocate_eq_ok htaken h
  have hput : taken.insert? target t placement =
      some (taken.replace target (placement.put t amid)) := by
    rw [Store.insert?, hamid]
    rfl
  have hperm := Store.allTokens_relocate htaken hput
  obtain ⟨tokens, htokens, htoken, rfl⟩ := Store.remove?_eq_some htaken
  -- The token stands between its neighbours, which are left when it is erased.
  have hsplit : tokens = tokens.take index ++ t :: tokens.drop (index + 1) := by
    obtain ⟨hindex, rfl⟩ := List.getElem?_eq_some_iff.1 htoken
    rw [List.cons_getElem_drop_succ, List.take_append_drop]
  have herased : tokens.eraseIdx index = tokens.take index ++ tokens.drop (index + 1) :=
    List.eraseIdx_eq_take_drop_succ ..
  have hrandom := place.placement_state (s.definition.orderOf target) amid.length x.state.random
  have hdepth := place.placement_put (s.definition.orderOf target) x.state.random t amid
  rw [hplace] at hrandom hdepth
  rw [herased] at hamid hstate hperm
  refine ⟨t, tokens.take index, tokens.drop (index + 1), amid, rfl, ?_⟩
  exact {
    taken := htokens.trans (congrArg some hsplit)
    among := by
      by_cases hsame : source = target
      · subst hsame
        rw [if_pos rfl]
        exact Option.some.inj (hamid.symm.trans (Store.tokens?_replace_self _ _ _))
      · rw [if_neg hsame]
        rw [Store.tokens?_replace_ne _ _ (Ne.symm hsame)] at hamid
        exact (Store.tokens_of_tokens? hamid).symm
    left := fun hne => by
      rw [hstate]
      exact (Store.tokens?_replace_ne _ _ hne).trans (Store.tokens?_replace_self _ _ _)
    joined := by
      refine ⟨_, rfl, place.depth_le _ _ _, ?_⟩
      rw [hstate, ← hdepth]
      exact Store.tokens?_replace_self _ _ _
    others := fun zone hsource htarget => by
      rw [hstate]
      exact (Store.tokens?_replace_ne _ _ htarget).trans (Store.tokens?_replace_ne _ _ hsource)
    kept := by
      rw [hstate]
      exact hperm
    events := hevents
    state := by
      rw [hstate, ← hrandom] }

/-- A bound token that moves. -/
theorem movesToken_of_moveToken {token : String} {ref ref' : ZoneRef}
    (hsource : ref.resolve (s.view x) = .ok source) (htarget : ref'.resolve (s.view x) = .ok target)
    (h : s.moveToken x token ref ref' place = .ok y) :
    ∃ t before after amid, (s.view x).token token = .ok t.id ∧
      Session.MovesToken s.definition source target place t before after amid x y := by
  unfold moveToken at h
  obtain ⟨id, hid, h⟩ := bind_eq_ok h
  rw [hsource, htarget] at h
  obtain ⟨index, hlocated, h⟩ := bind_eq_ok (a := s.locateIn x id source) h
  have hlocated := (s.locateIn_settled x id source).of_ok hlocated
  obtain ⟨t, before, after, amid, rfl, hmoves⟩ := movesToken_of_relocate hlocated h
  exact ⟨t, before, after, amid, mapError_eq_ok hid, hmoves⟩

end Site

/-! ## Effects -/

/-- An effect that binds nothing succeeds if what it does succeeds. -/
theorem keepBindings_eq_ok {s : Site} {a : Attempt Session} {y : Session} {b : Bindings}
    (h : keepBindings s a = .ok (y, b)) : a = .ok y ∧ b = s.bindings := by
  obtain ⟨z, hz, h⟩ := bind_eq_ok h
  cases h
  exact ⟨hz, rfl⟩

/-- What the effects that move tokens between two zones do where all tokens differ.  A draw takes
tokens from the front, as many as it says and there are.  A move of all takes those that its filter
keeps in the state from before.  In both, the block comes where its tokens come that are taken and
put down one at a time.  A move of one takes that token only, which may stay in its zone. -/
theorem Site.moves_tokens {s : Site} {x y : Session} {b : Bindings} {ref ref' : ZoneRef}
    {source target : ZoneId} (hdistinct : x.state.store.Distinct)
    (hsource : ref.resolve (s.view x) = .ok source)
    (htarget : ref'.resolve (s.view x) = .ok target) :
    (∀ count n, source ≠ target → count.evalInt (s.view x) = .ok n →
        Effect.run (.draw ref ref' count) s x = .ok (y, b) →
          Session.MovesBlock s.definition source target
            ((x.state.store.tokens source).take (min n.toInt.toNat (x.state.store.size source)))
            ((x.state.store.tokens source).drop (min n.toInt.toNat (x.state.store.size source)))
              x y ∧
          Session.MovesSingly s.definition source target
            (List.range (min n.toInt.toNat (x.state.store.size source)))
            ((x.state.store.tokens source).take (min n.toInt.toNat (x.state.store.size source)))
              x y) ∧
      (∀ filter, source ≠ target → Effect.run (.moveAll ref ref' filter) s x = .ok (y, b) →
        (∀ t ∈ x.state.store.tokens source,
          filter.keeps (s.view x) t.value = .ok (filter.selects (s.view x) t)) ∧
        Session.MovesBlock s.definition source target
          ((x.state.store.tokens source).filter (filter.selects (s.view x)))
          ((x.state.store.tokens source).filter (fun t => !filter.selects (s.view x) t)) x y ∧
        Session.MovesSingly s.definition source target
          (((x.state.store.tokens source).zipIdx.filter
            (fun e => filter.selects (s.view x) e.1)).map (·.2))
          ((x.state.store.tokens source).filter (filter.selects (s.view x))) x y) ∧
      ∀ token place, Effect.run (.moveToken token ref ref' place) s x = .ok (y, b) →
        ∃ t before after amid, (s.view x).token token = .ok t.id ∧
          Session.MovesToken s.definition source target place t before after amid x y ∧
          ∀ id, y.state.store.token? id = x.state.store.token? id := by
  have hzone := ZoneRef.hasZone_of_resolve hsource
  have hzone' := ZoneRef.hasZone_of_resolve htarget
  refine ⟨fun count n hne hcount h => ?_, fun filter hne h => ?_, fun token place h => ?_⟩
  · rw [Effect.run] at h
    have hdraw := movesBlock_of_draw hdistinct hne hsource htarget hcount (keepBindings_eq_ok h).1
    -- As many tokens as there are is all that can be drawn.
    have htake : (x.state.store.tokens source).take
        (min n.toInt.toNat (x.state.store.size source)) =
        (x.state.store.tokens source).take n.toInt.toNat := List.take_eq_take_min.symm
    have hdrop : (x.state.store.tokens source).drop
        (min n.toInt.toNat (x.state.store.size source)) =
        (x.state.store.tokens source).drop n.toInt.toNat := by
      rcases Nat.le_total n.toInt.toNat (x.state.store.size source) with hle | hle
      · rw [Nat.min_eq_left hle]
      · rw [Nat.min_eq_right hle, List.drop_of_length_le hle]
        exact List.drop_length
    rw [htake, hdrop]
    exact ⟨hdraw, hdraw.singly_take hne hzone hzone'⟩
  · rw [Effect.run] at h
    obtain ⟨htests, hmoves⟩ :=
      movesBlock_of_moveAll hdistinct hne hsource htarget (keepBindings_eq_ok h).1
    exact ⟨htests, hmoves, hmoves.singly_filter hne hzone hzone'⟩
  · rw [Effect.run] at h
    obtain ⟨t, before, after, amid, hid, hmoves⟩ :=
      movesToken_of_moveToken hsource htarget (keepBindings_eq_ok h).1
    exact ⟨t, before, after, amid, hid, hmoves, Store.token?_eq_of_perm hdistinct hmoves.kept⟩

/-- A game of patience: cards go from the stock to the waste, from which the oldest one comes back
first. -/
def Definition.patience : Definition :=
  { Definition.minimal "patience" with
    zones := [{ id := "stock" }, { id := "waste", order := .queue }]
    tokenTypes := [{ id := "card" }]
    setup :=
      [.create "card" (.id "stock"), .create "card" (.id "stock"), .create "card" (.id "stock"),
      .create "card" (.id "waste")] }

/-- Where a player turns cards. -/
def Site.patience : Site where
  setting := { game := .ofDefinition .patience, actor := ⟨0⟩ }
  path := "turn"
  bindings := ∅

/-- The cards as they are dealt. -/
def Session.patience : Session where
  state := (Site.patience.setting.game.start 1 0).toOption.getD default

/-- Two cards are turned: they come behind the one in the waste. -/
theorem Site.moves_tokens_patience :
    Session.patience.state.store.Distinct ∧
      (ZoneRef.id "stock").resolve (Site.patience.view .patience) = .ok "stock" ∧
      (ZoneRef.id "waste").resolve (Site.patience.view .patience) = .ok "waste" ∧
      ∃ y, Effect.run (.draw (.id "stock") (.id "waste") (.int 2)) Site.patience .patience =
        .ok (y, ∅) ∧
        y.state.store.ids "stock" = ["card#0"] ∧
        y.state.store.ids "waste" = ["card#3", "card#2", "card#1"] := by
  have hdistinct : Session.patience.state.store.Distinct := by
    unfold Store.Distinct
    decide +kernel
  have hstock : (ZoneRef.id "stock").resolve (Site.patience.view .patience) = .ok "stock" :=
    bind_ok rfl (if_pos (by decide +kernel))
  have hwaste : (ZoneRef.id "waste").resolve (Site.patience.view .patience) = .ok "waste" :=
    bind_ok rfl (if_pos (by decide +kernel))
  obtain ⟨⟨y, b⟩, hy⟩ : ∃ p, Effect.run (.draw (.id "stock") (.id "waste") (.int 2)) Site.patience
      .patience = .ok p :=
    exists_ok_of_isOk (by decide +kernel)
  have hkept := hy
  rw [Effect.run] at hkept
  obtain rfl : b = ∅ := (keepBindings_eq_ok hkept).2
  obtain ⟨hdraw, -⟩ := (Site.moves_tokens hdistinct hstock hwaste (y := y) (b := ∅)).1 (.int 2) 2
    (by decide) rfl hy
  have hleft : (((Session.patience.state.store.tokens "stock").drop 2).map (·.id)) =
      ["card#0"] := by
    decide +kernel
  have hjoined : (Session.patience.state.store.tokens "waste" ++
      (Session.patience.state.store.tokens "stock").take 2).map (·.id) =
        ["card#3", "card#2", "card#1"] := by
    decide +kernel
  have hsize : min (Int64.toInt 2).toNat (Session.patience.state.store.size "stock") = 2 := by
    decide +kernel
  have hqueue : Site.patience.definition.orderOf "waste" = .queue := by decide +kernel
  rw [hsize] at hdraw
  refine ⟨hdistinct, hstock, hwaste, y, hy, ?_, ?_⟩
  · rw [Store.ids_of_tokens? hdraw.left, hleft]
  · rw [Store.ids_of_tokens? hdraw.joined, if_pos hqueue, hjoined]

end Tabletop
